import LfiRuntime.Mmap.Placement

/-!
The pieces that `unmap`, `map_at` and `protect` pass to their update function.
-/

namespace LfiRuntime.Mmap

open LfiRuntime.RangeMap
open LfiRuntime.Runs

/-- A call with an update function. -/
inductive Update
  | unmap
  | mapAt (info : MapInfo)
  | protect (prot : BitVec 32)
deriving DecidableEq, Repr

namespace AddrSpace

variable (s : AddrSpace)

def pagesize : Nat := 2 ^ s.p2pagesize

/-- Whether the call succeeds, and the pieces that it passes to its update function. -/
def update (addr len : Nat) : Update → Bool × List Piece
  | .unmap => ((s.unmap addr len).1 = .kOk, (s.unmap addr len).2.2)
  | .mapAt info => ((s.mapAt addr len info).1.isSome, (s.mapAt addr len info).2.2)
  | .protect prot => ((s.protect addr len prot).1 = .kOk, (s.protect addr len prot).2.2)

end AddrSpace

/-- The page is in the piece. -/
def Piece.Has (p : Piece) (pagesize page : Nat) : Prop :=
  p.start ≤ page * pagesize ∧ page * pagesize < p.start + p.len

/-- The pieces are the pages of the request that are mapped, with what is mapped there. -/
structure Exact (s : AddrSpace) (addr len : Nat) (pieces : List Piece) : Prop where
  nonempty : ∀ p ∈ pieces, 0 < p.len
  aligned : ∀ p ∈ pieces, s.pagesize ∣ p.start ∧ s.pagesize ∣ p.len
  ascending : pieces.Pairwise fun p q => p.start + p.len ≤ q.start
  pages : ∀ page, (∃ p ∈ pieces, p.Has s.pagesize page) ↔
    s.toPage addr ≤ page ∧ page < s.toPage addr + s.toPageCeil len ∧
      s.queryPage (page * s.pagesize) ≠ none
  info : ∀ p ∈ pieces, ∀ page, p.Has s.pagesize page →
    s.queryPage (page * s.pagesize) = some p.info

/-- The requests that the calls refuse. -/
def Refused (s : AddrSpace) (addr len : Nat) : Prop :=
  addr % s.pagesize ≠ 0 ∨ len = 0 ∨ s.isValid (s.toPage addr) (s.toPageCeil len) = false

/-- Each run of mapped pages of the request starts below `2 ^ 64`, is shorter than
`2 ^ 64` bytes, and the page number after the request is one of 64 bits. -/
def Addressable (s : AddrSpace) (addr len : Nat) : Prop :=
  ∀ e ∈ s.regions,
    let lo := max e.start (s.toPage addr)
    let hi := min e.stop (s.toPage addr + s.toPageCeil len)
    lo < hi → lo * s.pagesize < 2 ^ 64 ∧ (hi - lo) * s.pagesize < 2 ^ 64 ∧
      s.toPage addr + s.toPageCeil len < 2 ^ 64

variable {s : AddrSpace} {addr len start stop k : Nat}

theorem pagesize_pos (s : AddrSpace) : 0 < s.pagesize := Nat.two_pow_pos _

theorem queryPage_page (s : AddrSpace) (k : Nat) :
    s.queryPage (k * s.pagesize) = toFun s.regions k := by
  rw [AddrSpace.queryPage, AddrSpace.toPage, Nat.shiftRight_eq_div_pow]
  change (find s.regions (k * s.pagesize / s.pagesize)).map Entry.val = _
  rw [Nat.mul_div_cancel _ (pagesize_pos s)]
  rfl

theorem toAddr_mod (s : AddrSpace) (k : Nat) : s.toAddr k = k * s.pagesize % 2 ^ 64 := by
  rw [AddrSpace.toAddr, Nat.shiftLeft_eq, AddrSpace.pagesize]

theorem sub64_add_mod {x y : Nat} (hx : x < 2 ^ 64) : sub64 ((x + y) % 2 ^ 64) x = y % 2 ^ 64 := by
  rw [sub64]
  omega

/-- The bytes of pages that start below `2 ^ 64`. -/
theorem bytes_of_pages {a b : Nat} (hab : a ≤ b) (ha : a * s.pagesize < 2 ^ 64) :
    s.toAddr a = a * s.pagesize ∧
      sub64 (s.toAddr b) (s.toAddr a) = (b - a) * s.pagesize % 2 ^ 64 := by
  have hsum : b * s.pagesize = a * s.pagesize + (b - a) * s.pagesize := by
    rw [← Nat.add_mul, Nat.add_sub_cancel' hab]
  have hstart : s.toAddr a = a * s.pagesize := by rw [toAddr_mod, Nat.mod_eq_of_lt ha]
  rw [hstart, toAddr_mod, hsum, sub64_add_mod ha]
  exact ⟨rfl, rfl⟩

/-- An entry that meets the request, clipped to it. -/
structure Clipped (s : AddrSpace) (start stop : Nat) (e : Entry Nat MapInfo) (p : Piece) : Prop where
  lo : p.start = max e.start start * s.pagesize
  hi : p.start + p.len = min e.stop stop * s.pagesize
  info : p.info = e.val
  lt : max e.start start < min e.stop stop

theorem clip_spec {e : Entry Nat MapInfo} (hclip : max e.start start < min e.stop stop)
    (hlo : max e.start start * s.pagesize < 2 ^ 64)
    (hlen : (min e.stop stop - max e.start start) * s.pagesize < 2 ^ 64) :
    Clipped s start stop e (s.clip start stop e) := by
  obtain ⟨hstart, hpiece⟩ := bytes_of_pages hclip.le hlo
  rw [Nat.mod_eq_of_lt hlen] at hpiece
  refine ⟨hstart, ?_, rfl, hclip⟩
  change s.toAddr _ + sub64 _ _ = _
  rw [hpiece, hstart, ← Nat.add_mul, Nat.add_sub_cancel' hclip.le]

theorem Clipped.has_iff {e : Entry Nat MapInfo} {p : Piece} (h : Clipped s start stop e p) :
    p.Has s.pagesize k ↔ e.Covers k ∧ start ≤ k ∧ k < stop := by
  have hps := pagesize_pos s
  rw [Piece.Has, h.hi, h.lo, Nat.mul_le_mul_right_iff hps, Nat.mul_lt_mul_right hps,
    Entry.Covers]
  omega

theorem Clipped.len_eq {e : Entry Nat MapInfo} {p : Piece} (h : Clipped s start stop e p) :
    p.len = (min e.stop stop - max e.start start) * s.pagesize := by
  have hhi := h.hi
  rw [Nat.sub_mul, ← h.lo]
  omega

theorem mem_getOverlapping_clip_iff (h : WellFormed s.regions) (hlt : start < stop)
    {e : Entry Nat MapInfo} :
    e ∈ getOverlapping s.regions start stop ↔
      e ∈ s.regions ∧ max e.start start < min e.stop stop := by
  rw [mem_getOverlapping_iff h hlt]
  refine and_congr_right fun he => ?_
  have hne := h.nonempty e he
  omega

/-- The clips of the entries that meet a request. -/
theorem exact_clips (h : WellFormed s.regions) (hpages : 0 < s.toPageCeil len)
    (hfit : Addressable s addr len) :
    Exact s addr len ((getOverlapping s.regions (s.toPage addr)
      (s.toPage addr + s.toPageCeil len)).map
        (s.clip (s.toPage addr) (s.toPage addr + s.toPageCeil len))) := by
  unfold Addressable at hfit
  generalize hstart : s.toPage addr = start at *
  have hlt : start < start + s.toPageCeil len := Nat.lt_add_of_pos_right hpages
  have hclip : ∀ e ∈ getOverlapping s.regions start (start + s.toPageCeil len),
      Clipped s start (start + s.toPageCeil len) e (s.clip start (start + s.toPageCeil len) e) := by
    intro e he
    obtain ⟨hmem, hmeets⟩ := (mem_getOverlapping_clip_iff h hlt).mp he
    obtain ⟨hlo, hlen, -⟩ := hfit e hmem hmeets
    exact clip_spec hmeets hlo hlen
  have hmem := fun e => mem_getOverlapping_iff (e := e) h hlt
  have hpiece : ∀ p ∈ (getOverlapping s.regions start (start + s.toPageCeil len)).map
      (s.clip start (start + s.toPageCeil len)), ∃ e ∈ s.regions,
        Clipped s start (start + s.toPageCeil len) e p := by
    intro p hp
    obtain ⟨e, he, rfl⟩ := List.mem_map.mp hp
    exact ⟨e, ((hmem e).mp he).1, hclip e he⟩
  refine ⟨?_, ?_, ?_, ?_, ?_⟩
  · intro p hp
    obtain ⟨e, -, hc⟩ := hpiece p hp
    rw [hc.len_eq]
    exact Nat.mul_pos (Nat.sub_pos_of_lt hc.lt) (pagesize_pos s)
  · intro p hp
    obtain ⟨e, -, hc⟩ := hpiece p hp
    rw [hc.len_eq, hc.lo]
    exact ⟨Nat.dvd_mul_left _ _, Nat.dvd_mul_left _ _⟩
  · refine List.pairwise_map.mpr ((wellFormed_getOverlapping _ _ h).sorted.imp_of_mem ?_)
    intro e f he hf hle
    rw [(hclip e he).hi, (hclip f hf).lo]
    exact Nat.mul_le_mul_right _ ((min_le_left _ _).trans (hle.trans (le_max_left _ _)))
  · intro page
    rw [hstart, queryPage_page]
    constructor
    · rintro ⟨p, hp, hhas⟩
      obtain ⟨e, he, hc⟩ := hpiece p hp
      obtain ⟨hek, hlo, hhi⟩ := hc.has_iff.mp hhas
      exact ⟨hlo, hhi, fun hnone => (toFun_eq_none_iff h).mp hnone e he hek⟩
    · rintro ⟨hlo, hhi, hmapped⟩
      obtain ⟨v, hv⟩ := Option.ne_none_iff_exists'.mp hmapped
      obtain ⟨e, he, hek, -⟩ := (toFun_eq_some_iff h).mp hv
      have hover := (hmem e).mpr ⟨he, hlo.trans_lt hek.2, hek.1.trans_lt hhi⟩
      exact ⟨_, List.mem_map_of_mem hover, (hclip e hover).has_iff.mpr ⟨hek, hlo, hhi⟩⟩
  · intro p hp page hhas
    obtain ⟨e, he, hc⟩ := hpiece p hp
    rw [queryPage_page, hc.info]
    exact (toFun_eq_some_iff h).mpr ⟨e, he, (hc.has_iff.mp hhas).1, rfl⟩

theorem toPageCeil_pos (hlen : 0 < len) : 0 < s.toPageCeil len := by
  rw [AddrSpace.toPageCeil, Nat.shiftRight_eq_div_pow]
  split
  · exact Nat.succ_pos _
  · rename_i hmod
    exact Nat.div_pos (Nat.le_of_dvd hlen (Nat.dvd_of_mod_eq_zero (by simpa using hmod)))
      (Nat.two_pow_pos _)

/-- The last page of a request holds a byte of it. -/
theorem toPageCeil_mul_lt (s : AddrSpace) (len : Nat) :
    s.toPageCeil len * s.pagesize < len + s.pagesize := by
  have hdiv := Nat.div_add_mod len s.pagesize
  have hps := pagesize_pos s
  rw [AddrSpace.toPageCeil, Nat.shiftRight_eq_div_pow]
  change (if len % s.pagesize ≠ 0 then len / s.pagesize + 1 else len / s.pagesize) * s.pagesize < _
  rw [Nat.mul_comm] at hdiv
  split
  · rename_i hmod
    rw [Nat.add_mul]
    omega
  · omega

theorem toPage_mul (hal : addr % s.pagesize = 0) : s.toPage addr * s.pagesize = addr := by
  rw [AddrSpace.toPage, Nat.shiftRight_eq_div_pow]
  exact Nat.div_mul_cancel (Nat.dvd_of_mod_eq_zero hal)

theorem not_refused (hargs : ¬(addr % 2 ^ s.p2pagesize ≠ 0 ∨ len = 0))
    (hvalid : ¬(!s.isValid (s.toPage addr) (s.toPageCeil len)) = true) : ¬Refused s addr len := by
  rintro (hal | hlen | hinvalid)
  · exact hargs (.inl hal)
  · exact hargs (.inr hlen)
  · exact hvalid (by rw [hinvalid]; rfl)

/-- A request of 64-bit length has `2 ^ 64` bytes of pages at most, or pages whose size is
a multiple of that. -/
theorem pages_mod {n : Nat} (hlen : len < 2 ^ 64) (hn : n ≤ s.toPageCeil len)
    (hge : 2 ^ 64 ≤ n * s.pagesize) : n * s.pagesize % 2 ^ 64 = 0 := by
  have hlt := toPageCeil_mul_lt s len
  have hle := Nat.mul_le_mul_right s.pagesize hn
  rcases Nat.le_total s.p2pagesize 64 with hp | hp
  · obtain ⟨q, hq⟩ : s.pagesize ∣ 2 ^ 64 := Nat.pow_dvd_pow 2 hp
    have hnq : n < q + 1 := by
      refine Nat.lt_of_mul_lt_mul_right (a := s.pagesize) ?_
      rw [Nat.add_mul, Nat.mul_comm q, ← hq]
      omega
    have hmul := Nat.mul_le_mul_right s.pagesize (Nat.le_of_lt_succ hnq)
    rw [Nat.mul_comm q, ← hq] at hmul
    rw [Nat.le_antisymm hmul hge, Nat.mod_self]
  · exact Nat.mod_eq_zero_of_dvd (Dvd.dvd.mul_left (Nat.pow_dvd_pow 2 hp) n)

/-- The three calls refuse the same requests, with no pieces, and pass the same pieces
where they succeed. -/
theorem update_cases (s : AddrSpace) (addr len : Nat) (u : Update) :
    Refused s addr len ∧ (s.update addr len u).1 = false ∧ (s.update addr len u).2 = [] ∨
      ¬Refused s addr len ∧ (s.update addr len u).1 = true ∧
        (s.update addr len u).2 =
          (getOverlapping s.regions (s.toPage addr)
            (add64 (s.toPage addr) (s.toPageCeil len))).map
              (s.clip (s.toPage addr) (add64 (s.toPage addr) (s.toPageCeil len))) := by
  have hargs : addr % 2 ^ s.p2pagesize ≠ 0 ∨ len = 0 → Refused s addr len := by
    rintro (hal | hlen)
    · exact .inl hal
    · exact .inr (.inl hlen)
  have hpages : ¬len = 0 → s.toPageCeil len ≠ 0 := fun hlen =>
    (toPageCeil_pos (Nat.pos_of_ne_zero hlen)).ne'
  cases u with
  | unmap =>
      simp only [AddrSpace.update, AddrSpace.unmap]
      split_ifs with hbad hzero hvalid
      · exact .inl ⟨hargs hbad, rfl, rfl⟩
      · exact absurd hzero (hpages (not_or.mp hbad).2)
      · exact .inl ⟨.inr (.inr (by simpa using hvalid)), rfl, rfl⟩
      · exact .inr ⟨not_refused hbad hvalid, rfl, rfl⟩
  | mapAt info =>
      simp only [AddrSpace.update, AddrSpace.mapAt, AddrSpace.unmap]
      split_ifs with hbad hzero hvalid
      · exact .inl ⟨hargs hbad, rfl, rfl⟩
      · exact absurd hzero (hpages (not_or.mp hbad).2)
      · exact .inl ⟨.inr (.inr (by simpa using hvalid)), rfl, rfl⟩
      · exact .inr ⟨not_refused hbad hvalid, rfl, rfl⟩
  | protect prot =>
      simp only [AddrSpace.update, AddrSpace.protect]
      split_ifs with hbad hzero hvalid
      · exact .inl ⟨hargs hbad, rfl, rfl⟩
      · exact absurd hzero (hpages (not_or.mp hbad).2)
      · exact .inl ⟨.inr (.inr (by simpa using hvalid)), rfl, rfl⟩
      · exact .inr ⟨not_refused hbad hvalid, rfl, rfl⟩

/-- What the calls promise about their update function. -/
def UpdatesExactly (s : AddrSpace) (addr len : Nat) (u : Update) : Prop :=
  if (s.update addr len u).1 then Exact s addr len (s.update addr len u).2
  else (s.update addr len u).2 = []

/-- What is passed for a request whose last page has no 64-bit number after it. -/
theorem getOverlapping_wrapped (hstart : s.toPage addr < 2 ^ 64) (hlen : s.toPageCeil len < 2 ^ 64)
    (hwrap : 2 ^ 64 ≤ s.toPage addr + s.toPageCeil len) :
    getOverlapping s.regions (s.toPage addr) (add64 (s.toPage addr) (s.toPageCeil len)) = [] := by
  rw [getOverlapping, if_pos]
  rw [add64]
  omega

/-- A run that is passed exactly has 64-bit addresses. -/
theorem addressable_of_exact_clip (haddr : addr < 2 ^ 64) (hlen : len < 2 ^ 64)
    (hal : addr % s.pagesize = 0) {e : Entry Nat MapInfo} {pieces : List Piece}
    (hmeets : max e.start (s.toPage addr) < min e.stop (s.toPage addr + s.toPageCeil len))
    (hexact : Exact s addr len pieces)
    (hp : s.clip (s.toPage addr) (s.toPage addr + s.toPageCeil len) e ∈ pieces) :
    max e.start (s.toPage addr) * s.pagesize < 2 ^ 64 ∧
      (min e.stop (s.toPage addr + s.toPageCeil len) - max e.start (s.toPage addr)) *
        s.pagesize < 2 ^ 64 := by
  have hpos := hexact.nonempty _ hp
  have hps := pagesize_pos s
  set lo := max e.start (s.toPage addr) with hlo
  set hi := min e.stop (s.toPage addr + s.toPageCeil len) with hhi
  have hstart : lo * s.pagesize < 2 ^ 64 := by
    by_contra hge
    -- the piece then starts below the request
    obtain ⟨⟨k, hk⟩, -⟩ := hexact.aligned _ hp
    have hfirst : (s.clip (s.toPage addr) (s.toPage addr + s.toPageCeil len) e).Has s.pagesize k := by
      rw [Piece.Has, Nat.mul_comm k, ← hk]
      omega
    obtain ⟨hk', -, -⟩ := (hexact.pages k).mp ⟨_, hp, hfirst⟩
    have hbelow : lo * s.pagesize < addr + 2 ^ 64 := by
      have hlast : lo + 1 ≤ s.toPage addr + s.toPageCeil len := by omega
      have hmul := Nat.mul_le_mul_right s.pagesize hlast
      have hceil := toPageCeil_mul_lt s len
      rw [Nat.add_mul, Nat.add_mul, toPage_mul hal] at hmul
      omega
    have hmod : s.pagesize * k = lo * s.pagesize % 2 ^ 64 := by
      rw [← hk, ← toAddr_mod]
      rfl
    have hmul := Nat.mul_le_mul_right s.pagesize hk'
    rw [toPage_mul hal, Nat.mul_comm k, hmod] at hmul
    omega
  refine ⟨hstart, ?_⟩
  by_contra hge
  have hlen' : (s.clip (s.toPage addr) (s.toPage addr + s.toPageCeil len) e).len =
      (hi - lo) * s.pagesize % 2 ^ 64 := (bytes_of_pages hmeets.le hstart).2
  rw [hlen', pages_mod hlen (by omega) (by omega)] at hpos
  exact absurd hpos (lt_irrefl 0)

/-- In every reachable mapper, a call keeps its promise exactly when it refuses the
request, or the runs of mapped pages in the request have 64-bit addresses. -/
theorem updatesExactly_iff (h : Reachable s) (haddr : addr < 2 ^ 64) (hlen : len < 2 ^ 64)
    (u : Update) : UpdatesExactly s addr len u ↔ Refused s addr len ∨ Addressable s addr len := by
  have hwf := h.sound.wellFormed
  have hstart : s.toPage addr < 2 ^ 64 := (Nat.shiftRight_le _ _).trans_lt haddr
  have hceil : s.toPageCeil len < 2 ^ 64 := (toPageCeil_le s len).trans_lt hlen
  rw [UpdatesExactly]
  rcases update_cases s addr len u with ⟨href, hfail, hnil⟩ | ⟨hacc, hok, hpieces⟩
  · rw [hfail, if_neg (by simp), hnil]
    exact iff_of_true rfl (.inl href)
  rw [if_pos hok, hpieces, or_iff_right hacc]
  obtain ⟨hal, hne⟩ : addr % s.pagesize = 0 ∧ len ≠ 0 := by
    by_contra hargs
    refine hacc ?_
    by_cases hal : addr % s.pagesize = 0
    · exact .inr (.inl (by tauto))
    · exact .inl hal
  have hpages : 0 < s.toPageCeil len := toPageCeil_pos (Nat.pos_of_ne_zero hne)
  have hlt : s.toPage addr < s.toPage addr + s.toPageCeil len := Nat.lt_add_of_pos_right hpages
  rcases Nat.lt_or_ge (s.toPage addr + s.toPageCeil len) (2 ^ 64) with hfit | hwrap
  · rw [add64_eq hfit]
    refine ⟨?_, exact_clips hwf hpages⟩
    intro hexact e he lo hi hmeets
    have hmem := List.mem_map_of_mem (f := s.clip (s.toPage addr) (s.toPage addr + s.toPageCeil len))
      ((mem_getOverlapping_clip_iff hwf hlt).mpr ⟨he, hmeets⟩)
    obtain ⟨hlo, hhi⟩ := addressable_of_exact_clip haddr hlen hal hmeets hexact hmem
    exact ⟨hlo, hhi, hfit⟩
  · rw [getOverlapping_wrapped hstart hceil hwrap]
    -- nothing is passed, so nothing may be mapped
    constructor
    · intro hexact e he lo hi hmeets
      have hnone : ¬∃ p ∈ ([] : List Piece), p.Has s.pagesize lo := by simp
      refine absurd ((hexact.pages lo).mpr ⟨le_max_right _ _, hmeets.trans_le (min_le_right _ _), ?_⟩)
        hnone
      rw [queryPage_page]
      exact fun hfree => (toFun_eq_none_iff hwf).mp hfree e he
        ⟨le_max_left _ _, hmeets.trans_le (min_le_left _ _)⟩
    · intro hfit
      refine ⟨by simp, by simp, .nil, fun page => ?_, by simp⟩
      refine iff_of_false (by simp) ?_
      rintro ⟨hlo, hhi, hmapped⟩
      rw [queryPage_page] at hmapped
      obtain ⟨v, hv⟩ := Option.ne_none_iff_exists'.mp hmapped
      obtain ⟨e, he, hcov, -⟩ := (toFun_eq_some_iff hwf).mp hv
      have hmeets : max e.start (s.toPage addr) <
          min e.stop (s.toPage addr + s.toPageCeil len) :=
        (max_le hcov.1 hlo).trans_lt (lt_min hcov.2 hhi)
      exact absurd (hfit e he hmeets).2.2 hwrap.not_gt

/-- The second page of two is unmapped. -/
theorem updatesExactly_iff_at_second_page :
    Reachable (mapper 0x1000 0x3000 [⟨1, 3, anonInfo⟩] false) ∧
      Addressable (mapper 0x1000 0x3000 [⟨1, 3, anonInfo⟩] false) 0x2000 0x1000 ∧
      UpdatesExactly (mapper 0x1000 0x3000 [⟨1, 3, anonInfo⟩] false) 0x2000 0x1000 .unmap := by
  have hmap : CallStep (mapper 0x1000 0x3000 [] false)
      (.mapAny 0 0x1001 anonInfo, .addr (some 0x1000))
      (mapper 0x1000 0x3000 [⟨1, 3, anonInfo⟩] false) := by decide
  have hreach : Reachable (mapper 0x1000 0x3000 [⟨1, 3, anonInfo⟩] false) :=
    ⟨0x1000, 0x3000, 4096, _, _, by decide, by decide, by decide, .cons hmap (.nil _)⟩
  have hfit : Addressable (mapper 0x1000 0x3000 [⟨1, 3, anonInfo⟩] false) 0x2000 0x1000 := by
    intro e he
    obtain rfl := List.mem_singleton.mp he
    decide
  exact ⟨hreach, hfit,
    (updatesExactly_iff hreach (by decide) (by decide) .unmap).mpr (.inr hfit)⟩

/-- Two pages across the end of the address space, with different protections: the
piece of the second one is at address 0, below the first. -/
theorem wrapped_request_descends :
    ∃ s addr len, Reachable s ∧ addr < 2 ^ 64 ∧ len < 2 ^ 64 ∧
      ¬UpdatesExactly s addr len .unmap := by
  have hmap : CallStep (mapper 0xfffffffffffff000 0x2000 [] false)
      (.mapAt 0xfffffffffffff000 0x2000 anonInfo, .addr (some 0xfffffffffffff000))
      (mapper 0xfffffffffffff000 0x2000 [⟨0xfffffffffffff, 0x10000000000001, anonInfo⟩] false) := by
    decide
  have hprotect : CallStep
      (mapper 0xfffffffffffff000 0x2000 [⟨0xfffffffffffff, 0x10000000000001, anonInfo⟩] false)
      (.protect 0xfffffffffffff000 0x1000 1, .error .kOk)
      (mapper 0xfffffffffffff000 0x2000
        [⟨0xfffffffffffff, 0x10000000000000, { anonInfo with prot := 1 }⟩,
          ⟨0x10000000000000, 0x10000000000001, anonInfo⟩] false) := by
    decide
  refine ⟨_, 0xfffffffffffff000, 0x2000, ⟨0xfffffffffffff000, 0x2000, 4096, _, _, by decide,
    by decide, by decide, .cons hmap (.cons hprotect (.nil _))⟩, by decide, by decide, ?_⟩
  intro hexact
  have hpieces : Exact (mapper 0xfffffffffffff000 0x2000
        [⟨0xfffffffffffff, 0x10000000000000, { anonInfo with prot := 1 }⟩,
          ⟨0x10000000000000, 0x10000000000001, anonInfo⟩] false) 0xfffffffffffff000 0x2000
      [⟨0xfffffffffffff000, 0x1000, { anonInfo with prot := 1 }⟩, ⟨0, 0x1000, anonInfo⟩] := hexact
  exact absurd hpieces.ascending (by decide)

end LfiRuntime.Mmap
