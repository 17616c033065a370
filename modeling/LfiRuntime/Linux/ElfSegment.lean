import LfiRuntime.Linux.ElfLoad

/-!
One segment: what `buf_read_elfseg` leaves in the range that it is loaded to.
-/

namespace LfiRuntime.Elf

open LfiRuntime.Align
open LfiRuntime.Box
open LfiRuntime.ByteString
open LfiRuntime.Config
open LfiRuntime.HostCalls
open LfiRuntime.Mmap
open LfiRuntime.PagedMemory

/-- What there is at an address: the byte, the page of the host and the page of the box. -/
structure View where
  byte : UInt8
  page : Option Page
  entry : Option MapInfo

def view (e : Engine) (box : LFIBox) (h : Host) (a : Nat) : View :=
  ⟨h.mem.read e.opts.pagesize a, h.mem.pages (a / e.opts.pagesize),
    box.mm.table (a / e.opts.pagesize)⟩

variable {e : Engine} {r : Region} {box box' : LFIBox} {h h' : Host} {s : SegArgs} {buf : Buf}
  {env : LoadEnv} {addr len a n : Nat}

theorem view_of_shows {byte : UInt8} {prot : BitVec 32} {entry : MapInfo}
    (hshows : Shows e box h a byte prot entry) :
    view e box h a = ⟨byte, some ⟨hostProt e.target prot, .priv⟩, some entry⟩ := by
  rw [view, hshows.byte, hshows.page, hshows.entry]

theorem view_of_only (ho : Only e r addr len box h box' h')
    (ha : ¬InSpan e.opts.pagesize addr len (a / e.opts.pagesize)) :
    view e box' h' a = view e box h a := by
  rw [view, view, ho.within.bytes a ha, ho.within.pages _ ha, ho.table _ ha]

/-! Writes of the host. -/

/-- Bytes written to private pages of a range. -/
theorem hostWrite_spec (hw : Works e r box) (hps : 0 < e.opts.pagesize) {bs : Bytes}
    (hpriv : ∀ a, addr ≤ a → a < addr + len → h.mem.backing (a / e.opts.pagesize) = .priv)
    (hlo : addr ≤ n) (hhi : n + bs.length ≤ addr + len) :
    Only e r addr len box h box (hostWrite e h n bs) ∧
      (hostWrite e h n bs).mem.pages = h.mem.pages ∧
      (hostWrite e h n bs).mem.read e.opts.pagesize = patch (h.mem.read e.opts.pagesize) n bs := by
  have hback : ∀ k, k < bs.length → h.mem.backing ((n + k) / e.opts.pagesize) = .priv :=
    fun k hk => hpriv _ (by omega) (by omega)
  have hread : (hostWrite e h n bs).mem.read e.opts.pagesize =
      patch (h.mem.read e.opts.pagesize) n bs := funext (Memory.read_writeBytes hback)
  have hpages : (hostWrite e h n bs).mem.pages = h.mem.pages := Memory.pages_writeBytes ..
  have hfiles : (hostWrite e h n bs).mem.files = h.mem.files := Memory.files_writeBytes hback
  refine ⟨.of_within hw ⟨fun p _ => by rw [hpages], fun p hp => ?_, fun a ha => ?_⟩ hfiles, hpages,
    hread⟩
  · apply Memory.lazy_writeBytes
    rintro k hk rfl
    exact hp (inSpan_of_mem hps (by omega) (by omega))
  · rw [hread]
    apply patch_of_not
    by_contra hin
    exact ha (inSpan_of_mem hps (by omega) (by omega))

def hostWrites (e : Engine) (h : Host) (writes : List (Nat × Bytes)) : Host :=
  writes.foldl (fun h w => hostWrite e h w.1 w.2) h

theorem hostWrites_spec (hw : Works e r box) (hps : 0 < e.opts.pagesize)
    {writes : List (Nat × Bytes)}
    (hpriv : ∀ a, addr ≤ a → a < addr + len → h.mem.backing (a / e.opts.pagesize) = .priv)
    (hin : ∀ w ∈ writes, addr ≤ w.1 ∧ w.1 + w.2.length ≤ addr + len) :
    Only e r addr len box h box (hostWrites e h writes) ∧
      (hostWrites e h writes).mem.pages = h.mem.pages ∧
      (hostWrites e h writes).mem.read e.opts.pagesize =
        writes.foldl (fun F w => patch F w.1 w.2) (h.mem.read e.opts.pagesize) := by
  induction writes generalizing h with
  | nil => exact ⟨.refl hw h addr len, rfl, rfl⟩
  | cons w writes ih =>
      obtain ⟨hlo, hhi⟩ := hin w List.mem_cons_self
      obtain ⟨hfirst, hpages, hread⟩ := hostWrite_spec hw hps hpriv hlo hhi
      have hpriv' : ∀ a, addr ≤ a → a < addr + len →
          (hostWrite e h w.1 w.2).mem.backing (a / e.opts.pagesize) = .priv := by
        intro a ha ha'
        rw [Memory.backing, hpages]
        exact hpriv a ha ha'
      obtain ⟨hrest, hpages', hread'⟩ := ih hpriv' fun w' hw' => hin w' (List.mem_cons_of_mem _ hw')
      refine ⟨hfirst.trans hrest, hpages'.trans hpages, ?_⟩
      rw [List.foldl_cons, ← hread]
      exact hread'

theorem shows_hostWrites {writes : List (Nat × Bytes)} {byte : UInt8} {prot : BitVec 32}
    {entry : MapInfo} (hpages : (hostWrites e h writes).mem.pages = h.mem.pages)
    (hshows : Shows e box h a byte prot entry) :
    Shows e box (hostWrites e h writes) a
      ((hostWrites e h writes).mem.read e.opts.pagesize a) prot entry :=
  ⟨rfl, by rw [hpages, hshows.page], hshows.entry⟩

/-- The bytes that `sanitize` writes. -/
def filler (e : Engine) (prot : BitVec 32) (sz : Nat) : Bytes :=
  if has prot LFI_PROT_EXEC = true ∧ (e.target = x64 ∨ e.target = x64Pku) then
    List.replicate sz SAFE_BYTE
  else []

theorem hostWrite_nil (e : Engine) (h : Host) (a : Nat) : hostWrite e h a [] = h := rfl

theorem sanitize_eq (e : Engine) (h : Host) (p sz : Nat) (prot : BitVec 32) :
    sanitize e h p sz prot = hostWrite e h p (filler e prot sz) := by
  rw [sanitize, filler]
  cases hexec : has prot LFI_PROT_EXEC with
  | false => simp [hostWrite_nil]
  | true =>
      by_cases htarget : e.target = x64 ∨ e.target = x64Pku
      · simp [htarget]
      · simp [htarget, hostWrite_nil]

theorem length_filler_le (e : Engine) (prot : BitVec 32) (sz : Nat) :
    (filler e prot sz).length ≤ sz := by
  rw [filler]
  split <;> simp

/-! The range of a segment. -/

namespace SegArgs

def size (s : SegArgs) : Nat := sub64 s.stop s.start

/-- Where the bytes of the file go. -/
def data (s : SegArgs) : Nat := s.start + s.offset

def covers (s : SegArgs) (a : Nat) : Bool := s.start ≤ a && a < s.start + s.size

def InFile (s : SegArgs) (a : Nat) : Prop := s.data ≤ a ∧ a < s.data + s.filesz

instance (s : SegArgs) (a : Nat) : Decidable (s.InFile a) := inferInstanceAs (Decidable (_ ∧ _))

/-- The range is made of whole pages and has room for the segment. -/
structure Fits (ps : Nat) (s : SegArgs) : Prop where
  isAlign : IsAlign ps
  start_dvd : ps ∣ s.start
  size_dvd : ps ∣ s.size
  size_pos : 0 < s.size
  start_lt : s.start < 2 ^ 64
  stop_lt : s.stop < 2 ^ 64
  room : s.offset + s.memsz ≤ s.size
  filesz_le : s.filesz ≤ s.memsz

/-- The bytes that `copySeg` puts into the range. -/
def copiedByte (e : Engine) (buf : Buf) (s : SegArgs) (a : Nat) : UInt8 :=
  if s.InFile a then buf.data.getD (s.p_offset + (a - s.data)) 0
  else if has s.prot LFI_PROT_EXEC = true ∧ (e.target = x64 ∨ e.target = x64Pku) ∧
      (a < s.start + e.opts.pagesize ∨ s.start + s.size ≤ a + e.opts.pagesize) then SAFE_BYTE
  else 0

def copied (e : Engine) (buf : Buf) (s : SegArgs) (a : Nat) : View :=
  ⟨s.copiedByte e buf a, some ⟨hostProt e.target s.prot, .priv⟩, some ⟨s.prot, MAP_FLAGS, -1, 0⟩⟩

/-- Whether the segment ends with bytes that are not in the file. -/
def HasBss (s : SegArgs) : Prop := s.filesz < s.memsz

instance (s : SegArgs) : Decidable s.HasBss := inferInstanceAs (Decidable (_ < _))

/-- The first page of the segment that is not mapped from the file. -/
def bssRest (e : Engine) (s : SegArgs) : Nat := ceilp (s.data + s.filesz) e.opts.pagesize

/-- What `mapFileSeg` puts into the range, of files with the given bytes. -/
def mapped (e : Engine) (files : Int → Nat → UInt8) (buf : Buf) (s : SegArgs) (a : Nat) : View :=
  let off := truncp s.p_offset s.p_align
  ⟨if s.HasBss ∧ s.data + s.filesz ≤ a then 0 else files buf.fd (off + (a - s.start)),
    some ⟨hostProt e.target s.prot, .priv⟩,
    some (if s.HasBss ∧ s.bssRest e ≤ a then ⟨s.prot, MAP_FLAGS, -1, 0⟩
      else ⟨s.prot, LFI_MAP_PRIVATE, buf.fd, offT off⟩)⟩

namespace Fits

variable {ps : Nat} (hs : s.Fits ps)

include hs

theorem ps_le : ps ≤ s.size := Nat.le_of_dvd hs.size_pos hs.size_dvd

theorem stop_eq (hlt : s.start + s.size < 2 ^ 64) : s.stop = s.start + s.size := by
  have hstart := hs.start_lt
  have hstop := hs.stop_lt
  rw [size, sub64] at hlt ⊢
  omega

theorem inSpan_iff : InSpan ps s.start s.size (a / ps) ↔ s.covers a = true := by
  rw [covers, Bool.and_eq_true, decide_eq_true_eq, decide_eq_true_eq]
  exact ⟨mem_of_inSpan hs.start_dvd hs.size_dvd, fun ha => inSpan_of_mem hs.isAlign.pos ha.1 ha.2⟩

end Fits

theorem covers_iff : s.covers a = true ↔ s.start ≤ a ∧ a < s.start + s.size := by
  rw [covers, Bool.and_eq_true, decide_eq_true_eq, decide_eq_true_eq]

end SegArgs

theorem patch_replicate (F : Nat → UInt8) (o n : Nat) (b : UInt8) (a : Nat) :
    patch F o (List.replicate n b) a = if o ≤ a ∧ a < o + n then b else F a := by
  rw [patch, List.length_replicate]
  split
  · rename_i hin
    rw [List.getD_eq_getElem?_getD, List.getElem?_replicate, if_pos (by omega), Option.getD_some]
  · rfl

theorem patch_filler (F : Nat → UInt8) (o n : Nat) (prot : BitVec 32) (a : Nat) :
    patch F o (filler e prot n) a =
      if (has prot LFI_PROT_EXEC = true ∧ (e.target = x64 ∨ e.target = x64Pku)) ∧
        o ≤ a ∧ a < o + n then SAFE_BYTE else F a := by
  rw [filler]
  split
  · rename_i htrap
    rw [patch_replicate]
    simp only [htrap, true_and]
  · rename_i htrap
    rw [patch_nil, if_neg fun hand => htrap hand.1]

/-- The three writes of `copySeg`. -/
def copyWrites (e : Engine) (s : SegArgs) (bytes : Bytes) : List (Nat × Bytes) :=
  let ps := e.opts.pagesize
  [(s.start, filler e s.prot ps), (s.start + s.size - ps, filler e s.prot ps), (s.data, bytes)]

theorem foldl_copyWrites (hs : s.Fits e.opts.pagesize) (buf : Buf) {F : Nat → UInt8}
    (hzero : F a = 0) (ha : s.covers a = true) :
    let bytes := (buf.data.drop s.p_offset).take s.filesz
    bytes.length = s.filesz →
      (copyWrites e s bytes).foldl (fun F w => patch F w.1 w.2) F a = s.copiedByte e buf a := by
  intro bytes hlen
  have hps := hs.ps_le
  obtain ⟨hlo, hhi⟩ := SegArgs.covers_iff.mp ha
  simp only [copyWrites, List.foldl_cons, List.foldl_nil, SegArgs.copiedByte]
  rw [patch, hlen]
  split
  · rename_i hin
    rw [if_pos (show s.InFile a from hin)]
    simp only [bytes]
    rw [List.getD_eq_getElem?_getD, List.getElem?_take_of_lt (by omega), List.getElem?_drop,
      ← List.getD_eq_getElem?_getD]
  · rename_i hin
    rw [if_neg (show ¬s.InFile a from hin), patch_filler, patch_filler, hzero]
    clear hin hlen
    split_ifs <;> grind

/-- The bytes of the file that belong to the segment are there. -/
def SegArgs.Complete (s : SegArgs) (buf : Buf) : Prop :=
  ((buf.data.drop s.p_offset).take s.filesz).length = s.filesz

/-- What `copySeg` writes to a range that has been mapped. -/
theorem copyWrites_read (hw : Works e r box) (hs : s.Fits e.opts.pagesize) (buf : Buf)
    (hshow : ∀ a, s.covers a = true → Shows e box h a 0 (LFI_PROT_READ ||| LFI_PROT_WRITE)
      ⟨LFI_PROT_READ ||| LFI_PROT_WRITE, MAP_FLAGS, -1, 0⟩) :
    let h' := hostWrites e h (copyWrites e s ((buf.data.drop s.p_offset).take s.filesz))
    Only e r s.start s.size box h box h' ∧ h'.mem.pages = h.mem.pages ∧
      (s.Complete buf → ∀ a, s.covers a = true →
        h'.mem.read e.opts.pagesize a = s.copiedByte e buf a) := by
  intro h'
  have hps := hs.isAlign.pos
  have hroom := hs.room
  have hfile := hs.filesz_le
  have hsize := hs.ps_le
  have hlen := length_filler_le e s.prot e.opts.pagesize
  have hpriv : ∀ a, s.start ≤ a → a < s.start + s.size →
      h.mem.backing (a / e.opts.pagesize) = .priv := by
    intro a hlo hhi
    rw [Memory.backing, (hshow a (SegArgs.covers_iff.mpr ⟨hlo, hhi⟩)).page]
  have hin : ∀ w ∈ copyWrites e s ((buf.data.drop s.p_offset).take s.filesz),
      s.start ≤ w.1 ∧ w.1 + w.2.length ≤ s.start + s.size := by
    have hbytes := List.length_take_le s.filesz (buf.data.drop s.p_offset)
    simp only [copyWrites, List.forall_mem_cons, SegArgs.data]
    refine ⟨?_, ?_, ?_, fun _ hw => by cases hw⟩
    · omega
    · omega
    · omega
  obtain ⟨honly, hpages, hread⟩ := hostWrites_spec hw hps hpriv hin
  refine ⟨honly, hpages, fun hcomplete a ha => ?_⟩
  rw [hread]
  exact foldl_copyWrites hs buf (hshow a ha).byte ha hcomplete

/-- What `copySeg` does with a range that has been mapped. -/
theorem copyWrites_spec (hw : Works e r box) (hs : s.Fits e.opts.pagesize) (buf : Buf)
    (hshow : ∀ a, s.covers a = true → Shows e box h a 0 (LFI_PROT_READ ||| LFI_PROT_WRITE)
      ⟨LFI_PROT_READ ||| LFI_PROT_WRITE, MAP_FLAGS, -1, 0⟩) :
    let h' := hostWrites e h (copyWrites e s ((buf.data.drop s.p_offset).take s.filesz))
    let v := lfiBoxMprotect e box h' s.start s.size s.prot
    Only e r s.start s.size box h box h' ∧ Only e r s.start s.size box h v.2.1 v.2.2 ∧
      (s.Complete buf → 0 ≤ v.1 → refuses e s.prot = false ∧
        ∀ a, s.covers a = true → view e v.2.1 v.2.2 a = s.copied e buf a) := by
  intro h' v
  obtain ⟨honly, hpages, hread⟩ := copyWrites_read hw hs buf hshow
  refine ⟨honly, honly.trans (boxMprotect_cases hw h' s.start s.size s.prot false).1, ?_⟩
  intro hcomplete hok
  obtain ⟨hrefuses, hsame⟩ := shows_mprotect hw hok
  refine ⟨hrefuses, fun a ha => ?_⟩
  have hshow' := hsame a _ _ (hs.inSpan_iff.mpr ha) (shows_hostWrites hpages (hshow a ha))
  rw [view_of_shows hshow', hread hcomplete a ha]
  rfl

theorem copySeg_cases (hw : Works e r box) (hs : s.Fits e.opts.pagesize) (h : Host) (buf : Buf) :
    let u := copySeg e box h s buf e.opts.pagesize
    u = (false, box, h) ∨
      lfiBoxBufvalid box s.start s.size = true ∧
        Only e r s.start s.size box h u.2.1 u.2.2 ∧
        (u.1 = true → s.Complete buf ∧ refuses e s.prot = false ∧
          ∀ a, s.covers a = true → view e u.2.1 u.2.2 a = s.copied e buf a) := by
  intro u
  have hsize : sub64 s.stop s.start = s.size := rfl
  simp only [u, copySeg, bufRead_eq, Option.getD_some, hsize, sanitize_eq]
  have hmap := @mapat_private _ _ _ (LFI_PROT_READ ||| LFI_PROT_WRITE) MAP_FLAGS (-1) 0
    hw h s.start s.size (by decide)
  generalize lfiBoxMapat e box h s.start s.size (LFI_PROT_READ ||| LFI_PROT_WRITE) MAP_FLAGS (-1) 0
    = w at hmap ⊢
  obtain ⟨res, box₁, h₁⟩ := w
  dsimp only at hmap ⊢
  rcases hmap with heq | ⟨hbuf, hacc, honly, rfl | ⟨rfl, -, src, hsrc, hshow⟩⟩
  · obtain ⟨rfl, rfl, rfl⟩ : res = none ∧ box₁ = box ∧ h₁ = h := by simpa using heq
    exact .inl rfl
  · exact .inr ⟨hbuf, honly, fun hok => by cases hok⟩
  right
  refine ⟨hbuf, ?_⟩
  obtain rfl := Option.some.inj ((hostSource_anon e.opts.pagesize (-1) 0).symm.trans hsrc)
  have hend : s.start + s.size < 2 ^ 64 := by
    have hlt := hw.region.lt
    simp only [lfiBoxBufvalid, Bool.and_eq_true, decide_eq_true_eq] at hbuf
    omega
  have hroom := hs.room
  have hps := hs.ps_le
  obtain ⟨hwrites, hprotect, hok⟩ := copyWrites_spec honly.works hs buf
    fun a ha => hshow a (hs.inSpan_iff.mpr ha)
  rw [hs.stop_eq hend, sub64_eq (by omega) hend, add64_eq (by omega)]
  dsimp only
  split
  · exact ⟨honly.trans hwrites, fun hok => by cases hok⟩
  · rename_i hcomplete
    have hcomplete : s.Complete buf := not_not.mp hcomplete
    exact ⟨honly.trans hprotect, fun hv => ⟨hcomplete, hok hcomplete (of_decide_eq_true hv)⟩⟩

/-- What a private mapping of a file shows. -/
theorem hostSource_private {ps : Nat} {fd off : Int} {src : Source}
    (hsrc : hostSource ps LFI_MAP_PRIVATE fd off = some src) :
    src = .privateFile fd off.toNat ∧ 0 ≤ fd ∧ 0 ≤ off := by
  have hflags : has LFI_MAP_PRIVATE LFI_MAP_SHARED = false ∧
      has LFI_MAP_PRIVATE LFI_MAP_PRIVATE = true ∧
        has LFI_MAP_PRIVATE LFI_MAP_ANONYMOUS = false := by decide
  rw [hostSource, hflags.1, hflags.2.1, hflags.2.2] at hsrc
  simp only [Bool.not_false, Bool.not_true, Bool.and_false, Bool.false_eq_true, if_false] at hsrc
  split at hsrc
  · cases hsrc
  · rename_i hargs
    obtain rfl := Option.some.inj hsrc
    exact ⟨rfl, by omega, by omega⟩

theorem truncp_lt (a b : Nat) : truncp a b < 2 ^ 64 := BitVec.isLt _

theorem toNat_offT (hoff : n < 2 ^ 64) (hpos : 0 ≤ offT n) : (offT n).toNat = n ∧ n < 2 ^ 63 := by
  rw [offT, BitVec.toInt_eq_toNat_cond, BitVec.toNat_ofNat, Nat.mod_eq_of_lt hoff] at hpos ⊢
  split_ifs at hpos ⊢ <;> omega

/-- Where the pages without a file start. -/
theorem SegArgs.Fits.bssRest_spec (hs : s.Fits e.opts.pagesize) (hend : s.start + s.size < 2 ^ 64)
    (hbss : s.HasBss) :
    e.opts.pagesize ∣ s.bssRest e ∧ s.data + s.filesz ≤ s.bssRest e ∧
      s.bssRest e ≤ s.start + s.size := by
  have hroom := hs.room
  rw [SegArgs.HasBss] at hbss
  obtain ⟨-, hle, -, hstop⟩ := ceilp_spec hs.isAlign
    (show s.data + s.filesz ≤ s.start + s.size by rw [SegArgs.data]; omega)
    (dvd_add hs.start_dvd hs.size_dvd) hend
  exact ⟨dvd_ceilp hs.isAlign, hle, hstop⟩

/-- What `mapFileSeg` does with the end of a range that the file has been mapped to. -/
theorem fileBss_spec (hw : Works e r box) (hs : s.Fits e.opts.pagesize)
    (hend : s.start + s.size < 2 ^ 64) (hbss : s.HasBss) {F : Nat → UInt8} {entry : MapInfo}
    (hshow : ∀ a, s.covers a = true → Shows e box h a (F a) s.prot entry) :
    let x := s.data + s.filesz
    let h' := hostWrite e h x (List.replicate (s.bssRest e - x) 0)
    let v := lfiBoxMapat e box h' (s.bssRest e) (s.start + s.size - s.bssRest e) s.prot MAP_FLAGS
      (-1) 0
    Only e r s.start s.size box h box h' ∧ Only e r s.start s.size box h v.2.1 v.2.2 ∧
      ((s.start + s.size ≤ s.bssRest e → ∀ a, s.covers a = true →
          view e box h' a = ⟨if x ≤ a then 0 else F a,
            some ⟨hostProt e.target s.prot, .priv⟩, some entry⟩) ∧
        (v.1.isSome = true → ∀ a, s.covers a = true →
          view e v.2.1 v.2.2 a = ⟨if x ≤ a then 0 else F a,
            some ⟨hostProt e.target s.prot, .priv⟩,
            some (if s.bssRest e ≤ a then ⟨s.prot, MAP_FLAGS, -1, 0⟩ else entry)⟩)) := by
  intro x h' v
  have hps := hs.isAlign.pos
  have hroom := hs.room
  obtain ⟨hdvd, hle, hstop⟩ := hs.bssRest_spec hend hbss
  have hpriv : ∀ a, s.start ≤ a → a < s.start + s.size →
      h.mem.backing (a / e.opts.pagesize) = .priv := by
    intro a hlo hhi
    rw [Memory.backing, (hshow a (SegArgs.covers_iff.mpr ⟨hlo, hhi⟩)).page]
  obtain ⟨honly, hpages, hread⟩ := hostWrite_spec hw hps hpriv
    (show s.start ≤ x by simp only [x, SegArgs.data]; omega)
    (show x + (List.replicate (s.bssRest e - x) (0 : UInt8)).length ≤ s.start + s.size by
      rw [List.length_replicate]; omega)
  have hzero : ∀ a, s.covers a = true → a < s.bssRest e ∨ s.start + s.size ≤ s.bssRest e →
      Shows e box h' a (if x ≤ a then 0 else F a) s.prot entry := by
    intro a ha hlt
    obtain ⟨hlo, hhi⟩ := SegArgs.covers_iff.mp ha
    refine ⟨?_, by rw [hpages, (hshow a ha).page], (hshow a ha).entry⟩
    rw [hread, patch_replicate, (hshow a ha).byte]
    split_ifs <;> first | rfl | omega
  have hrest := @mapat_private _ _ _ s.prot MAP_FLAGS (-1) 0 hw h'
    (s.bssRest e) (s.start + s.size - s.bssRest e) (by decide)
  have hsub : ∀ p, InSpan e.opts.pagesize (s.bssRest e) (s.start + s.size - s.bssRest e) p →
      InSpan e.opts.pagesize s.start s.size p :=
    fun p => inSpan_mono (by simp only [SegArgs.data] at hle; omega) (by omega)
  refine ⟨honly, ?_, fun hsmall a ha => view_of_shows (hzero a ha (.inr hsmall)), ?_⟩
  · rcases hrest with heq | ⟨-, -, honly', -⟩
    · simp only [v, heq]
      exact honly
    · exact honly.trans (honly'.mono hsub)
  · intro hok a ha
    rcases hrest with heq | ⟨-, -, honly', hnone | ⟨-, -, src, hsrc, hshow'⟩⟩
    · simp only [v, heq] at hok
      cases hok
    · simp only [v, hnone] at hok
      cases hok
    obtain rfl := Option.some.inj ((hostSource_anon e.opts.pagesize (-1) 0).symm.trans hsrc)
    obtain ⟨hlo, hhi⟩ := SegArgs.covers_iff.mp ha
    by_cases hin : s.bssRest e ≤ a
    · have hspan := inSpan_of_mem hps hin (show a < s.bssRest e + (s.start + s.size - s.bssRest e) by
        omega)
      rw [view_of_shows (hshow' a hspan), if_pos hin, if_pos (hle.trans hin)]
      rfl
    · have hspan : ¬InSpan e.opts.pagesize (s.bssRest e) (s.start + s.size - s.bssRest e)
          (a / e.opts.pagesize) := by
        intro hspan
        have hlen : e.opts.pagesize ∣ s.start + s.size - s.bssRest e :=
          Nat.dvd_sub (dvd_add hs.start_dvd hs.size_dvd) hdvd
        exact hin (mem_of_inSpan hdvd hlen hspan).1
      rw [view_of_only honly' hspan, view_of_shows (hzero a ha (.inl (by omega))), if_neg hin]

/-- The segment can be mapped from a file. -/
structure SegArgs.Mappable (s : SegArgs) : Prop where
  write : s.HasBss → has s.prot LFI_PROT_WRITE = true
  offset : truncp s.p_offset s.p_align < 2 ^ 63

theorem mapFileSeg_cases (hw : Works e r box) (hs : s.Fits e.opts.pagesize) (h : Host) (buf : Buf) :
    let u := mapFileSeg e box h s buf
    u = (false, box, h) ∨
      lfiBoxBufvalid box s.start s.size = true ∧
        Only e r s.start s.size box h u.2.1 u.2.2 ∧
        (u.1 = true → s.Mappable ∧ refuses e s.prot = false ∧
          ∀ a, s.covers a = true → view e u.2.1 u.2.2 a = s.mapped e h.mem.files buf a) := by
  intro u
  have hsize : sub64 s.stop s.start = s.size := rfl
  simp only [u, mapFileSeg, hsize]
  have hmap := @mapat_private _ _ _ s.prot LFI_MAP_PRIVATE buf.fd
    (offT (truncp s.p_offset s.p_align)) hw h s.start s.size (by decide)
  generalize lfiBoxMapat e box h s.start s.size s.prot LFI_MAP_PRIVATE buf.fd
    (offT (truncp s.p_offset s.p_align)) = w at hmap ⊢
  obtain ⟨res, box₁, h₁⟩ := w
  dsimp only at hmap ⊢
  rcases hmap with heq | ⟨hbuf, hacc, honly, rfl | ⟨rfl, hrefuses, src, hsrc, hshow⟩⟩
  · obtain ⟨rfl, rfl, rfl⟩ : res = none ∧ box₁ = box ∧ h₁ = h := by simpa using heq
    exact .inl rfl
  · exact .inr ⟨hbuf, honly, fun hok => by cases hok⟩
  right
  refine ⟨hbuf, ?_⟩
  obtain ⟨rfl, -, hpos⟩ := hostSource_private hsrc
  obtain ⟨hoff, hlt⟩ := toNat_offT (truncp_lt _ _) hpos
  have hend : s.start + s.size < 2 ^ 64 := by
    have hlt := hw.region.lt
    simp only [lfiBoxBufvalid, Bool.and_eq_true, decide_eq_true_eq] at hbuf
    omega
  replace hshow : ∀ a, s.covers a = true → Shows e box₁ h₁ a
      (h.mem.files buf.fd (truncp s.p_offset s.p_align + (a - s.start))) s.prot
        ⟨s.prot, LFI_MAP_PRIVATE, buf.fd, offT (truncp s.p_offset s.p_align)⟩ := by
    intro a ha
    have hfile := hshow a (hs.inSpan_iff.mpr ha)
    rwa [sourceByte, hoff] at hfile
  simp only [Option.isNone_some, Bool.false_eq_true, if_false]
  split
  · rename_i hbss
    split
    · exact ⟨honly, fun hok => by cases hok⟩
    rename_i hwrite
    have hok : s.Mappable := ⟨fun _ => by simpa using hwrite, hlt⟩
    have hroom := hs.room
    obtain ⟨-, hle, hstop⟩ := hs.bssRest_spec hend hbss
    have hdata : s.data = s.start + s.offset := rfl
    have hx : add64 (add64 s.start s.offset) s.filesz = s.data + s.filesz := by
      rw [add64_eq (by omega : s.start + s.offset < 2 ^ 64), add64_eq (by omega), hdata]
    have hceil : ceilp (s.data + s.filesz) e.opts.pagesize = s.bssRest e := rfl
    obtain ⟨hwritten, hrest, hsmall, hlarge⟩ := fileBss_spec honly.works hs hend hbss hshow
    rw [hs.stop_eq hend, hx, hceil, sub64_eq hle (by omega), sub64_eq hstop hend]
    split
    · refine ⟨honly.trans hrest, fun hmapped => ⟨hok, hrefuses, fun a ha => ?_⟩⟩
      rw [hlarge hmapped a ha, SegArgs.mapped]
      simp only [show s.HasBss from hbss, true_and]
    · rename_i hlast
      refine ⟨honly.trans hwritten, fun _ => ⟨hok, hrefuses, fun a ha => ?_⟩⟩
      have hlt : ¬s.bssRest e ≤ a := by
        have := SegArgs.covers_iff.mp ha
        omega
      rw [hsmall (by omega) a ha, SegArgs.mapped]
      simp only [show s.HasBss from hbss, true_and, hlt, if_false]
  · rename_i hbss
    refine ⟨honly, fun _ => ⟨⟨fun h => absurd h hbss, hlt⟩, hrefuses, fun a ha => ?_⟩⟩
    rw [view_of_shows (hshow a ha), SegArgs.mapped]
    simp only [show ¬s.HasBss from hbss, false_and, if_false]

/-- What `buf_read_elfseg` puts into the range for `ELF_MAP`. -/
def SegArgs.loaded (e : Engine) (files : Int → Nat → UInt8) (buf : Buf) (s : SegArgs) (a : Nat) :
    View :=
  if buf.fd ≠ -1 then s.mapped e files buf a else s.copied e buf a

structure SegArgs.Accepted (e : Engine) (buf : Buf) (s : SegArgs) : Prop where
  refuses : refuses e s.prot = false
  mappable : buf.fd ≠ -1 → s.Mappable
  complete : buf.fd = -1 → s.Complete buf

/-- A segment is refused, or it fails within its range, or it is loaded. -/
theorem bufReadElfseg_cases (hw : Works e r box) (hs : s.Fits e.opts.pagesize) (env : LoadEnv)
    (h : Host) (buf : Buf) :
    let u := bufReadElfseg e env box h s buf e.opts.pagesize .elfMap
    u = (false, box, h) ∨
      lfiBoxBufvalid box s.start s.size = true ∧
        Only e r s.start s.size box h u.2.1 u.2.2 ∧
        (u.1 = true → s.Accepted e buf ∧
          ∀ a, s.covers a = true → view e u.2.1 u.2.2 a = s.loaded e h.mem.files buf a) := by
  intro u
  have hremap : ¬(MapOp.elfMap = .elfRemap ∧ has s.prot LFI_PROT_EXEC = true) :=
    fun hand => nomatch hand.1
  simp only [u, bufReadElfseg, if_neg hremap, SegArgs.loaded]
  by_cases hfd : buf.fd = -1
  · rw [if_neg (not_not.mpr hfd)]
    rcases copySeg_cases hw hs h buf with heq | ⟨hbuf, honly, hok⟩
    · exact .inl heq
    · refine .inr ⟨hbuf, honly, fun hv => ?_⟩
      obtain ⟨hcomplete, hrefuses, hview⟩ := hok hv
      refine ⟨⟨hrefuses, fun h => absurd hfd h, fun _ => hcomplete⟩, fun a ha => ?_⟩
      rw [hview a ha, if_neg (not_not.mpr hfd)]
  · rw [if_pos hfd]
    rcases mapFileSeg_cases hw hs h buf with heq | ⟨hbuf, honly, hok⟩
    · exact .inl heq
    · refine .inr ⟨hbuf, honly, fun hv => ?_⟩
      obtain ⟨hmappable, hrefuses, hview⟩ := hok hv
      refine ⟨⟨hrefuses, fun _ => hmappable, fun h => absurd h hfd⟩, fun a ha => ?_⟩
      rw [hview a ha, if_pos hfd]

/-! Either operation. -/

/-- The segment has been given the pages of its range. -/
structure Took (e : Engine) (r : Region) (s : SegArgs) (box : LFIBox) (h : Host) (box' : LFIBox)
    (h' : Host) : Prop where
  valid : lfiBoxBufvalid box s.start s.size = true
  only : Only e r s.start s.size box h box' h'
  mapped : ∀ a, s.covers a = true → (box'.mm.table (a / e.opts.pagesize)).isSome = true

theorem only_mremap (hw : Works e r box) (h : Host) (start len : Nat) (bytes : Nat → UInt8) :
    Only e r start len box h box (mremap e.opts.pagesize h start len bytes).2 := by
  rw [mremap]
  dsimp only
  split
  · refine .of_within hw ⟨fun p hp => if_neg hp, fun p hp => if_neg hp, fun a ha => ?_⟩ rfl
    refine Memory.read_congr ?_ (if_neg ha) (if_neg ha) rfl
    simp only [Memory.backing, if_neg ha]
  · exact .of_within hw (within_mem_munmap h (Outcome.extent_le ..)) rfl

theorem remapSeg_took (hw : Works e r box) (hs : s.Fits e.opts.pagesize) (env : LoadEnv) (h : Host)
    (buf : Buf) (hok : (remapSeg e env box h s buf).1 = true) :
    let u := remapSeg e env box h s buf
    Took e r s box h u.2.1 u.2.2 := by
  have hsize : sub64 s.stop s.start = s.size := rfl
  simp only [remapSeg, hsize] at hok ⊢
  split at hok
  · cases hok
  rename_i hfile
  rw [if_neg hfile]
  have hmoved := only_mremap hw h s.start s.size
    fun i => buf.data.getD (truncp s.p_offset s.p_align + i) 0
  generalize mremap e.opts.pagesize h s.start s.size _ = rm at hok hmoved ⊢
  split at hok
  · cases hok
  rename_i hrm
  rw [if_neg hrm]
  have hreg := @mapatRegister_ok e r box rm.2 s.start s.size s.prot MAP_FLAGS (-1) 0 hw
  generalize lfiBoxMapatRegister e box rm.2 s.start s.size s.prot MAP_FLAGS (-1) 0 = w at hok hreg ⊢
  split at hok
  · cases hok
  rename_i hold
  rw [if_neg hold]
  split at hok
  · cases hok
  rename_i hnew
  rw [if_neg hnew]
  obtain ⟨hbuf, hacc, hset⟩ :=
    hreg (by simpa using Option.isSome_iff_ne_none.mpr (by simpa using hnew))
  have hcall : Only e r s.start s.size w.2.1 w.2.2 w.2.1 (call w.2.2).2 :=
    .of_within hset.works (.of_mem rfl) rfl
  obtain ⟨hprotect, hneg | ⟨-, -, -, -, htable⟩⟩ :=
    boxMprotect_cases hset.works (call w.2.2).2 s.start s.size s.prot false
  · exact absurd (of_decide_eq_true hok) (not_le.mpr hneg)
  refine ⟨hbuf, ((hmoved.trans (hset.only hw hacc)).trans hcall).trans hprotect, fun a ha => ?_⟩
  have hspan := (hw.region.inSpan_iff hs.start_dvd).mp (hs.inSpan_iff.mpr ha)
  change ((boxMprotectLocked e w.2.1 (call w.2.2).2 s.start s.size s.prot false).2.1.mm.table
    _).isSome = true
  rw [htable, Table.protect, if_pos hspan, hset.table, Table.set, if_pos hspan]
  rfl

theorem bufReadElfseg_took (hw : Works e r box) (hs : s.Fits e.opts.pagesize) (env : LoadEnv)
    (h : Host) (buf : Buf) (mapOp : MapOp)
    (hok : (bufReadElfseg e env box h s buf e.opts.pagesize mapOp).1 = true) :
    let u := bufReadElfseg e env box h s buf e.opts.pagesize mapOp
    Took e r s box h u.2.1 u.2.2 := by
  by_cases hremap : mapOp = .elfRemap ∧ has s.prot LFI_PROT_EXEC = true
  · rw [bufReadElfseg, if_pos hremap] at hok ⊢
    exact remapSeg_took hw hs env h buf hok
  · have hmap : bufReadElfseg e env box h s buf e.opts.pagesize mapOp =
        bufReadElfseg e env box h s buf e.opts.pagesize .elfMap := by
      have helf : ¬(MapOp.elfMap = .elfRemap ∧ has s.prot LFI_PROT_EXEC = true) :=
        fun hand => nomatch hand.1
      rw [bufReadElfseg, bufReadElfseg, if_neg hremap, if_neg helf]
    rw [hmap] at hok ⊢
    rcases bufReadElfseg_cases hw hs env h buf with heq | ⟨hbuf, honly, hview⟩
    · rw [heq] at hok
      cases hok
    · refine ⟨hbuf, honly, fun a ha => ?_⟩
      have hentry := congrArg (·.entry.isSome) ((hview hok).2 a ha)
      refine hentry.trans ?_
      rw [SegArgs.loaded]
      split <;> rfl

end LfiRuntime.Elf
