import LfiRuntime.Sbox.CallContext

/-!
Runs of the host and the sandbox on one sandbox stack: what the contexts in
scope have handed out stays apart from the rest of the stack, and every scope
leaves the saved stack pointer as it found it.
-/

namespace LfiRuntime.SandboxStack

open LfiRuntime.Align
open LfiRuntime.Brackets
open LfiRuntime.Runs

def Block.lo (b : Block) : Nat := b.addr.toNat

def Block.hi (b : Block) : Nat := b.addr.toNat + b.size

def Block.Apart (a b : Block) : Prop := a.hi ≤ b.lo ∨ b.hi ≤ a.lo

/-- What the frame puts back when it ends. -/
def Frame.saved : Frame → Word
  | .context c => c.savedSp
  | .call w _ => w
  | .callback old => old

def Frame.blocks : Frame → List Block
  | .context c => c.blocks
  | _ => []

def blocksOf (fs : List Frame) : List Block := fs.flatMap Frame.blocks

/-- The blocks of the contexts in scope. -/
def State.blocks (s : State) : List Block := blocksOf s.frames

def State.saved (s : State) : List Word := s.frames.map Frame.saved

/-- The bytes that the trampoline itself needs below the stack arguments. -/
def pushed : Isa → Nat
  | .x64 => 16
  | .arm64 => 0

/-- The language and the calling convention: alignments are powers of two, and a callback
comes from at or below the stack pointer of its call. -/
def Obeys (isa : Isa) (s : State) : Op → Prop
  | .param _ _ _ align _ => IsAlign align
  | .callback sp => ∀ w staged fs, s.frames = .call w staged :: fs →
      sp.toNat ≤ (enterSp isa staged).toNat
  | _ => True

/-- The stack pointer does not wrap, only the context in the innermost scope hands out
blocks, and none to copy back once it is finalized. -/
def Orderly (isa : Isa) (s : State) : Op → Prop
  | .param k p size _ _ => k = 0 ∧ size ≤ s.sp.toNat ∧
      (p.copies = true → ∀ c, s.frames[k]? = some (.context c) → c.finalized = false)
  | .call args => 8 * (stackArgs isa args).length + pushed isa ≤ s.sp.toNat
  | _ => True

/-- The blocks of each context lie between the stack pointers of its scope, so that inner
scopes lie below them. The first argument is the stack pointer inside of all frames. -/
def Nested (isa : Isa) : Word → List Frame → Prop
  | _, [] => True
  | sp, .context c :: fs => sp.toNat ≤ c.savedSp.toNat ∧
      (∀ b ∈ c.blocks, sp.toNat ≤ b.lo ∧ b.hi ≤ c.savedSp.toNat ∧ b.align ∣ b.lo) ∧
      c.blocks.Pairwise Block.Apart ∧ Nested isa c.savedSp fs
  | sp, .call w staged :: fs => sp = staged ∧ staged.toNat ≤ w.toNat ∧
      pushed isa ≤ staged.toNat ∧ Nested isa w fs
  | sp, .callback old :: fs => sp.toNat ≤ old.toNat ∧ Nested isa old fs

def WellNested (isa : Isa) (s : State) : Prop := Nested isa s.sp s.frames

/-- The context has copied back either nothing or each of its blocks once. -/
def Settled (c : CallContext) : Prop :=
  (c.finalized = true → c.copied = c.copybacks) ∧ (c.finalized = false → c.copied = [])

variable {isa : Isa} {s t : State} {c : CallContext} {size align k : Nat} {sp w staged : Word}
  {fs : List Frame} {b : Block} {mem : Word → UInt8} {objects : Nat → Nat → UInt8}

/-! Nested scopes. -/

/-- All blocks lie at or above the stack pointer, aligned. -/
theorem Nested.block (h : Nested isa sp fs) (hb : b ∈ blocksOf fs) :
    sp.toNat ≤ b.lo ∧ b.align ∣ b.lo := by
  induction fs generalizing sp with
  | nil => exact absurd hb List.not_mem_nil
  | cons f fs ih =>
      rw [blocksOf, List.flatMap_cons, List.mem_append] at hb
      cases f with
      | context c =>
          obtain ⟨hle, hblocks, -, hrest⟩ := h
          rcases hb with hb | hb
          · exact ⟨(hblocks b hb).1, (hblocks b hb).2.2⟩
          · exact ⟨hle.trans (ih hrest hb).1, (ih hrest hb).2⟩
      | call w staged =>
          obtain ⟨rfl, hle, -, hrest⟩ := h
          have hb' := ih hrest (hb.resolve_left List.not_mem_nil)
          exact ⟨hle.trans hb'.1, hb'.2⟩
      | callback old =>
          obtain ⟨hle, hrest⟩ := h
          have hb' := ih hrest (hb.resolve_left List.not_mem_nil)
          exact ⟨hle.trans hb'.1, hb'.2⟩

theorem Nested.apart (h : Nested isa sp fs) : (blocksOf fs).Pairwise Block.Apart := by
  induction fs generalizing sp with
  | nil => exact .nil
  | cons f fs ih =>
      cases f with
      | context c =>
          obtain ⟨-, hblocks, hpairwise, hrest⟩ := h
          refine List.pairwise_append.mpr ⟨hpairwise, ih hrest, fun a ha b hb => .inl ?_⟩
          exact (hblocks a ha).2.1.trans (hrest.block hb).1
      | call w staged => exact ih h.2.2.2
      | callback old => exact ih h.2

/-- A context that is replaced by one with the same blocks and stack pointer. -/
theorem Nested.set {c' : CallContext} (h : Nested isa sp fs) (hk : fs[k]? = some (.context c))
    (hblocks : c'.blocks = c.blocks) (hsaved : c'.savedSp = c.savedSp) :
    Nested isa sp (fs.set k (.context c')) := by
  induction fs generalizing sp k with
  | nil => exact h
  | cons f fs ih =>
      cases k with
      | zero =>
          obtain rfl : f = .context c := Option.some.inj hk
          rw [List.set_cons_zero, Nested, hblocks, hsaved]
          exact h
      | succ k =>
          rw [List.set_cons_succ]
          cases f with
          | context d => exact ⟨h.1, h.2.1, h.2.2.1, ih h.2.2.2 hk⟩
          | call w staged => exact ⟨h.1, h.2.1, h.2.2.1, ih h.2.2.2 hk⟩
          | callback old => exact ⟨h.1, ih h.2 hk⟩

/-! Steps. -/

theorem enterSp_le (h : pushed isa ≤ staged.toNat) :
    (enterSp isa staged).toNat ≤ staged.toNat := by
  cases isa with
  | arm64 => exact le_rfl
  | x64 =>
      have halign : (staged &&& ~~~0xF#64).toNat = staged.toNat - staged.toNat % 16 :=
        toNat_and_not_mask ⟨4, by decide, rfl⟩ staged
      have hlt := staged.isLt
      rw [pushed] at h
      rw [enterSp, BitVec.toNat_sub, halign]
      simp only [BitVec.reduceToNat]
      omega

/-- Staged arguments lie between the two stack pointers. -/
theorem sp_stageStackArgs {ws : List Word} (hroom : 8 * ws.length + pushed isa ≤ s.sp.toNat) :
    (s.stageStackArgs ws).sp.toNat + 8 * ws.length ≤ s.sp.toNat ∧
      pushed isa ≤ (s.stageStackArgs ws).sp.toNat := by
  rw [State.stageStackArgs]
  split
  · rename_i hnil
    rw [hnil, List.length_nil] at hroom ⊢
    omega
  · have hle : 8 * ws.length ≤ s.sp.toNat := le_trans (Nat.le_add_right _ _) hroom
    have hpush : ((s.sp - BitVec.ofNat 64 (8 * ws.length)) &&& ~~~0xF#64).toNat =
        s.sp.toNat - 8 * ws.length - (s.sp.toNat - 8 * ws.length) % 16 :=
      toNat_stackPush ⟨4, by decide, rfl⟩ hle
    have hpushed : pushed isa = 16 ∨ pushed isa = 0 := by
      cases isa
      · exact .inl rfl
      · exact .inr rfl
    simp only [hpush]
    omega

theorem sp_param (c : CallContext) (w cp : Bool) (s : State) (size align host : Nat) :
    (c.param w cp s size align host).2.sp = (s.stackPush size align).1.addr := by
  cases w <;> rfl

theorem Nested.param {host : Nat} {p : Param} (h : Nested isa s.sp (.context c :: fs))
    (halign : IsAlign align) (hle : size ≤ s.sp.toNat) :
    Nested isa (p.code c s size align host).2.sp
      (.context (p.code c s size align host).1 :: fs) := by
  obtain ⟨hsaved, hblocks, hpairwise, hrest⟩ := h
  have hpush := toNat_stackPush halign hle
  have hsp : (s.stackPush size align).1.addr.toNat + size ≤ s.sp.toNat := by
    rw [hpush]
    omega
  have hdvd : align ∣ (s.stackPush size align).1.addr.toNat := by
    rw [hpush]
    exact Nat.dvd_sub_mod _
  rw [Param.code_eq, sp_param]
  refine ⟨le_trans (Nat.le_of_add_right_le hsp) hsaved, fun b hb => ?_, ?_, hrest⟩
  · rcases List.mem_cons.mp hb with rfl | hb
    · exact ⟨le_rfl, hsp.trans hsaved, hdvd⟩
    · obtain ⟨hlo, hhi, hdvd'⟩ := hblocks b hb
      exact ⟨le_trans (Nat.le_of_add_right_le hsp) hlo, hhi, hdvd'⟩
  · refine List.pairwise_cons.mpr ⟨fun b hb => .inl ?_, hpairwise⟩
    exact hsp.trans (hblocks b hb).1

theorem finalize_fields (c : CallContext) (s : State) :
    (c.finalize s).1.blocks = c.blocks ∧ (c.finalize s).1.savedSp = c.savedSp ∧
      (c.finalize s).2.sp = s.sp := by
  have hcopy : ∀ (cbs : List Copyback) (s : State), (cbs.foldl State.copyBack s).sp = s.sp := by
    intro cbs
    induction cbs with
    | nil => exact fun s => rfl
    | cons cb cbs ih => exact fun s => ih _
  rw [CallContext.finalize]
  split
  · exact ⟨rfl, rfl, rfl⟩
  · exact ⟨rfl, rfl, hcopy _ _⟩

theorem WellNested.step {op : Op} (h : WellNested isa s) (hobeys : Obeys isa s op)
    (horderly : Orderly isa s op) (hstep : Step isa s op t) : WellNested isa t := by
  rw [WellNested] at h ⊢
  cases hstep with
  | construct hhost => exact ⟨le_rfl, fun b hb => absurd hb List.not_mem_nil, .nil, h⟩
  | @param k c p size align host hhost hk =>
      obtain ⟨rfl, hle, -⟩ := horderly
      obtain ⟨fs, hfs⟩ : ∃ fs, s.frames = .context c :: fs :=
        List.head?_eq_some_iff.mp (List.head?_eq_getElem?.trans hk)
      rw [hfs] at h
      have hset : (s.setContext 0 (p.code c s size align host)).frames =
          .context (p.code c s size align host).1 :: fs := by
        rw [State.setContext, hfs, List.set_cons_zero]
      rw [hset]
      exact h.param hobeys hle
  | @finalize k c hhost hk =>
      obtain ⟨hblocks, hsaved, hsp⟩ := finalize_fields c s
      have hnested := h.set hk hblocks hsaved
      rw [← hsp] at hnested
      exact hnested
  | destroy hfs =>
      rw [hfs] at h
      exact h.2.2.2
  | call args hhost =>
      have hroom : 8 * (stackArgs isa args).length + pushed isa ≤ s.sp.toNat := horderly
      obtain ⟨hle, hpushed⟩ := sp_stageStackArgs hroom
      exact ⟨rfl, Nat.le_of_add_right_le hle, hpushed, h⟩
  | box mem hfs => exact h
  | callback sp hfs =>
      have hentry := hobeys _ _ _ hfs
      rw [hfs] at h
      obtain ⟨rfl, hle, hpushed, hrest⟩ := h
      rw [hfs]
      exact ⟨hentry.trans (enterSp_le hpushed), rfl, hle, hpushed, hrest⟩
  | callbackEnd hfs =>
      rw [hfs] at h
      exact h.2
  | abort hisa hfs =>
      rw [hfs] at h
      exact h.2.2.2.2
  | ret hfs =>
      rw [hfs] at h
      exact h.2.2.2

/-! Scopes. -/

theorem saved_set {c' : CallContext} (hk : fs[k]? = some (.context c))
    (hsaved : c'.savedSp = c.savedSp) :
    (fs.set k (.context c')).map Frame.saved = fs.map Frame.saved := by
  induction fs generalizing k with
  | nil => rfl
  | cons f fs ih =>
      cases k with
      | zero =>
          obtain rfl : f = .context c := Option.some.inj hk
          exact congrArg (· :: fs.map Frame.saved) hsaved
      | succ k => exact congrArg (Frame.saved f :: ·) (ih hk)

/-- Scopes save the stack pointer on a stack. -/
theorem saves_sp (isa : Isa) : Saves (Step isa) State.sp State.saved := by
  intro s op t hstep
  cases hstep with
  | construct hhost => exact .inl rfl
  | call args hhost => exact .inl rfl
  | callback sp hfs => exact .inl rfl
  | @param k c p size align host hhost hk =>
      refine .inr (.inl (saved_set hk ?_))
      rw [Param.code_eq]
      rfl
  | finalize hhost hk => exact .inr (.inl (saved_set hk (finalize_fields _ _).2.1))
  | box mem hfs => exact .inr (.inl rfl)
  | destroy hfs =>
      refine .inr (.inr ⟨[], ?_⟩)
      rw [State.saved, hfs]
      rfl
  | callbackEnd hfs =>
      refine .inr (.inr ⟨[], ?_⟩)
      rw [State.saved, hfs]
      rfl
  | @abort old w staged fs hisa hfs =>
      refine .inr (.inr ⟨[old], ?_⟩)
      rw [State.saved, hfs]
      rfl
  | ret hfs =>
      refine .inr (.inr ⟨[], ?_⟩)
      rw [State.saved, hfs]
      rfl

/-! Copying back. -/

theorem settled_finalize (h : Settled c) (s : State) : Settled (c.finalize s).1 := by
  rw [CallContext.finalize]
  split
  · exact h
  · rename_i hfin
    refine ⟨fun _ => ?_, fun htrue => absurd htrue (by simp)⟩
    rw [h.2 (Bool.eq_false_iff.mpr hfin)]
    rfl

theorem settled_param {p : Param} {host : Nat} (h : Settled c)
    (hfin : p.copies = true → c.finalized = false) :
    Settled (p.code c s size align host).1 := by
  rw [Param.code_eq]
  refine ⟨fun htrue => ?_, h.2⟩
  have hcopies : p.copies = false := by
    rw [Bool.eq_false_iff]
    intro hcopies
    exact absurd htrue (by rw [CallContext.param, hfin hcopies]; exact Bool.false_ne_true)
  rw [CallContext.param, hcopies]
  exact h.1 htrue

/-- Every context in scope is settled, and every other is finalized besides. -/
def Copied (s : State) : Prop :=
  (∀ c, .context c ∈ s.frames → Settled c) ∧ ∀ c ∈ s.gone, c.copied = c.copybacks

theorem Copied.frames (h : Copied s) (hgone : t.gone = s.gone)
    (hframes : ∀ c, .context c ∈ t.frames → .context c ∈ s.frames ∨ Settled c) : Copied t := by
  refine ⟨fun c hc => ?_, hgone ▸ h.2⟩
  rcases hframes c hc with hc | hc
  · exact h.1 c hc
  · exact hc

theorem Copied.setContext (h : Copied s) (k : Nat) {r : CallContext × State}
    (hgone : r.2.gone = s.gone) (hr : Settled r.1) : Copied (s.setContext k r) := by
  refine h.frames hgone fun c hc => ?_
  rcases List.mem_or_eq_of_mem_set hc with hc | heq
  · exact .inl hc
  · obtain rfl := Frame.context.inj heq
    exact .inr hr

theorem gone_param (c : CallContext) (w cp : Bool) (s : State) (size align host : Nat) :
    (c.param w cp s size align host).2.gone = s.gone := by
  cases w <;> rfl

theorem gone_finalize (c : CallContext) (s : State) : (c.finalize s).2.gone = s.gone := by
  have hcopy : ∀ (cbs : List Copyback) (s : State),
      (cbs.foldl State.copyBack s).gone = s.gone := by
    intro cbs
    induction cbs with
    | nil => exact fun s => rfl
    | cons cb cbs ih => exact fun s => ih _
  rw [CallContext.finalize]
  split
  · rfl
  · exact hcopy _ _

theorem gone_writeArgs (ws : List Word) (s : State) (addr : Word) :
    (s.writeArgs addr ws).gone = s.gone := by
  induction ws generalizing s addr with
  | nil => rfl
  | cons w ws ih => exact ih _ _

theorem gone_stageStackArgs (ws : List Word) (s : State) :
    (s.stageStackArgs ws).gone = s.gone := by
  rw [State.stageStackArgs]
  split
  · rfl
  · exact gone_writeArgs ws s _

theorem Copied.step {op : Op} (h : Copied s) (horderly : Orderly isa s op)
    (hstep : Step isa s op t) : Copied t := by
  have htail : ∀ {f fs}, s.frames = f :: fs → ∀ {c}, .context c ∈ fs → .context c ∈ s.frames := by
    intro f fs hfs c hc
    rw [hfs]
    exact List.mem_cons_of_mem f hc
  cases hstep with
  | construct hhost =>
      refine h.frames rfl fun c hc => ?_
      rcases List.mem_cons.mp hc with heq | hc
      · obtain rfl := Frame.context.inj heq
        exact .inr ⟨fun htrue => absurd htrue Bool.false_ne_true, fun _ => rfl⟩
      · exact .inl hc
  | @param k c p size align host hhost hk =>
      obtain ⟨-, -, hfin⟩ := horderly
      refine h.setContext k ?_ (settled_param (h.1 c (List.mem_of_getElem? hk)) fun hcopies => ?_)
      · rw [Param.code_eq, gone_param]
      · exact hfin hcopies c hk
  | @finalize k c hhost hk =>
      exact h.setContext k (gone_finalize c s) (settled_finalize (h.1 c (List.mem_of_getElem? hk)) s)
  | @destroy c fs hfs =>
      have hsettled := settled_finalize (h.1 c (by rw [hfs]; exact List.mem_cons_self)) s
      refine ⟨fun c' hc' => h.1 c' (htail hfs hc'), fun c' hc' => ?_⟩
      rcases List.mem_cons.mp hc' with rfl | hc'
      · exact hsettled.1 (finalized_finalize c s)
      · exact h.2 c' hc'
  | call args hhost =>
      refine h.frames (gone_stageStackArgs _ s) fun c hc => .inl ?_
      rcases List.mem_cons.mp hc with heq | hc
      · cases heq
      · exact hc
  | box mem hfs => exact h.frames rfl fun c hc => .inl hc
  | callback sp hfs =>
      refine h.frames rfl fun c hc => .inl ?_
      rcases List.mem_cons.mp hc with heq | hc
      · cases heq
      · exact hc
  | callbackEnd hfs => exact h.frames rfl fun c hc => .inl (htail hfs hc)
  | abort hisa hfs => exact h.frames rfl fun c hc => .inl (htail hfs (List.mem_cons_of_mem _ hc))
  | ret hfs => exact h.frames rfl fun c hc => .inl (htail hfs hc)

/-! Runs. -/

/-- What a state keeps to: blocks are apart and aligned, and what is to be copied back is
copied back once. -/
structure Disciplined (s : State) : Prop where
  apart : s.blocks.Pairwise Block.Apart
  aligned : ∀ b ∈ s.blocks, b.align ∣ b.addr.toNat
  copied : Copied s

/-- A call from `s` has entered the sandbox in `t`: below its stack pointer there are no
blocks, and from there up first the arguments. -/
def Clear (isa : Isa) (s : State) (args : List Arg) (t : State) : Prop :=
  ∃ staged, t.frames = .call s.sp staged :: s.frames ∧
    (enterSp isa staged).toNat ≤ staged.toNat ∧
    ∀ b ∈ t.blocks, staged.toNat + 8 * (stackArgs isa args).length ≤ b.addr.toNat

def Keeps (isa : Isa) (s : State) (op : Op) : Prop := Obeys isa s op ∧ Orderly isa s op

/-- In every run that keeps the order, blocks stay apart from each other and from the
calls, and scopes restore the stack pointer. -/
theorem stack_discipline (hrun : Reaches (Step isa) (Keeps isa) (.start sp mem objects) s) :
    Disciplined s ∧
    (∀ args t, Keeps isa s (.call args) → Step isa s (.call args) t → Clear isa s args t) ∧
    ∀ t, Bracket (Step isa) (Keeps isa) State.saved s t → t.sp = s.sp := by
  have hnested : WellNested isa s :=
    hrun.invariant (show WellNested isa (.start sp mem objects) from trivial)
      fun _ _ _ h hok hstep => h.step hok.1 hok.2 hstep
  have hcopied : Copied s :=
    hrun.invariant ⟨fun c hc => absurd hc List.not_mem_nil, fun c hc => absurd hc List.not_mem_nil⟩
      fun _ _ _ h hok hstep => h.step hok.2 hstep
  refine ⟨⟨hnested.apart, fun b hb => (hnested.block hb).2, hcopied⟩, ?_, ?_⟩
  · intro args t hkeeps hstep
    have hroom : 8 * (stackArgs isa args).length + pushed isa ≤ s.sp.toNat := hkeeps.2
    obtain ⟨hle, hpushed⟩ := sp_stageStackArgs hroom
    cases hstep with
    | call args hhost =>
        refine ⟨_, rfl, enterSp_le hpushed, fun b hb => hle.trans ?_⟩
        exact (hnested.block hb).1
  · intro t hbracket
    exact hbracket.reg_eq (saves_sp isa)

/-! A context, a call with an `inout` of 4 bytes and its `finalize`, and then an `out`. -/

def sampleStart : State := .start 0x18000 (fun _ => 0) fun _ _ => 0

def sampleNew : CallContext := .new sampleStart

def sampleOpen : State := { sampleStart with frames := [.context sampleNew] }

def sampleInout : CallContext := (Param.inout.code sampleNew sampleOpen 4 4 0).1

def sampleReady : State := sampleOpen.setContext 0 (Param.inout.code sampleNew sampleOpen 4 4 0)

def sampleCalled : State :=
  { sampleReady with frames := .call sampleReady.sp sampleReady.sp :: sampleReady.frames }

def sampleFinalized : State := sampleReady.setContext 0 (sampleInout.finalize sampleReady)

def sampleOut : State := sampleFinalized.setContext 0
  (Param.out.code (sampleInout.finalize sampleReady).1 sampleFinalized 4 4 1)

def sampleGone : CallContext :=
  (Param.out.code (sampleInout.finalize sampleReady).1 sampleFinalized 4 4 1).1

def sampleEnd : State :=
  { (sampleGone.finalize sampleOut).2.stackRestore sampleGone.savedSp with
    frames := [], gone := [(sampleGone.finalize sampleOut).1] }

/-- Up to the end of the first call. -/
theorem sample_reaches {ok : State → Op → Prop} (hnew : ok sampleStart .construct)
    (hinout : ok sampleOpen (.param 0 .inout 4 4 0)) (hcall : ok sampleReady (.call []))
    (hret : ok sampleCalled .ret) (hfinalize : ok sampleReady (.finalize 0)) :
    Reaches (Step .x64) ok sampleStart sampleFinalized := by
  have hopen : Reaches (Step .x64) ok sampleStart sampleOpen :=
    (Reaches.refl _).tail hnew (.construct trivial)
  have hready : Reaches (Step .x64) ok sampleStart sampleReady :=
    hopen.tail hinout (.param .inout 4 4 0 trivial rfl)
  have hcalled : Reaches (Step .x64) ok sampleStart sampleCalled :=
    hready.tail hcall (.call [] trivial)
  have hback : Reaches (Step .x64) ok sampleStart sampleReady := hcalled.tail hret (.ret rfl)
  exact hback.tail hfinalize (.finalize trivial rfl)

theorem stack_discipline_sample :
    Disciplined sampleFinalized ∧
    (∀ args t, Keeps .x64 sampleFinalized (.call args) → Step .x64 sampleFinalized (.call args) t →
      Clear .x64 sampleFinalized args t) ∧
    ∀ t, Bracket (Step .x64) (Keeps .x64) State.saved sampleFinalized t →
      t.sp = sampleFinalized.sp := by
  have hready : Keeps .x64 sampleReady (.call []) := by
    refine ⟨trivial, ?_⟩
    show 8 * 0 + 16 ≤ sampleReady.sp.toNat
    decide
  refine stack_discipline (sample_reaches ⟨trivial, trivial⟩ ⟨?_, ?_⟩ hready
    ⟨trivial, trivial⟩ ⟨trivial, trivial⟩)
  · exact ⟨2, by decide, rfl⟩
  · refine ⟨rfl, by decide, fun _ c hc => ?_⟩
    obtain rfl : sampleNew = c := Frame.context.inj (Option.some.inj hc)
    rfl

/-- The `out` of the second call is not copied back, as the first has finalized. -/
theorem not_disciplined_sample :
    Reaches (Step .x64) (Obeys .x64) sampleStart sampleEnd ∧ ¬Disciplined sampleEnd := by
  have hfinalized : Reaches (Step .x64) (Obeys .x64) sampleStart sampleFinalized :=
    sample_reaches trivial ⟨2, by decide, rfl⟩ trivial trivial trivial
  have hout : Reaches (Step .x64) (Obeys .x64) sampleStart sampleOut :=
    hfinalized.tail (l := .param 0 .out 4 4 1) ⟨2, by decide, rfl⟩
      (.param .out 4 4 1 trivial rfl)
  refine ⟨hout.tail (l := .destroy) trivial (.destroy rfl), fun h => ?_⟩
  have hcopied := h.copied.2 (sampleGone.finalize sampleOut).1 List.mem_cons_self
  exact absurd (congrArg List.length hcopied) (by decide)

end LfiRuntime.SandboxStack
