import XPlayer.LibAV.AVIO

/-!
# Buffered reading is reading

The buffer of an `AVIOContext` is a segment of the file that ends where the protocol is (`Coherent`). What a call of
`fill_buffer` can do is said once (`Filled`), and every operation gives the bytes of the file at `tell` whichever way
it takes; `avio_answers` says this of whole runs.
-/

namespace LibAV
open XPlayer

namespace AVIOContext
variable {σ : Type} (P : IOCallbacks σ)

/-! ### The buffer is a segment of the file -/

/-- The protocol serves `file`; `loc` is where it is. -/
structure Serves (file : List UInt8) (loc : σ → ℕ) : Prop where
  read_ok : ∀ u n bs u', P.read_packet u n = (.ok bs, u') →
    Segment file (loc u) bs ∧ bs.length ≤ n ∧ loc u' = loc u + bs.length
  read_error : ∀ u n e u', P.read_packet u n = (.error e, u') → loc u' = loc u
  /-- There is nothing only at the end. -/
  read_end : ∀ u n u', 0 < n → P.read_packet u n = (.ok [], u') ∨ P.read_packet u n = (.error .EOF, u') →
    file.length ≤ loc u
  seek_ok : ∀ f, P.seek = some f → ∀ u p q u', f u p = (.ok q, u') → loc u' = p
  seek_error : ∀ f, P.seek = some f → ∀ u p e u', f u p = (.error e, u') → loc u' = loc u

structure Coherent (file : List UInt8) (loc : σ → ℕ) (s : AVIOContext σ) : Prop where
  ptr : s.buf_ptr ≤ s.buffer.length
  start : s.buffer.length ≤ s.pos
  seg : Segment file (s.pos - s.buffer.length) s.buffer
  loc_eq : loc s.url = s.pos
  size : 0 < s.buffer_size
  eof : s.eof_reached = true → file.length ≤ s.pos ∨ s.error.isSome = true

/-- The position of the next byte. -/
def place (s : AVIOContext σ) : ℕ := s.pos - s.avail

/-- At the end of the file the buffer is used up. -/
def Quiet (s : AVIOContext σ) : Prop := s.eof_reached = true → s.avail = 0

variable {P} {file : List UInt8} {loc : σ → ℕ} {s : AVIOContext σ}

theorem length_rest (s : AVIOContext σ) (n : ℕ) : ((s.buffer.drop s.buf_ptr).take n).length = min n s.avail := by
  rw [List.length_take, List.length_drop, avail]

theorem place_of_avail (h : s.avail = 0) : s.place = s.pos := by rw [place, h, Nat.sub_zero]

namespace Coherent
variable (hs : Coherent file loc s)
include hs

theorem tell_eq : s.tell = s.place := by
  have h1 := hs.ptr
  have h2 := hs.start
  unfold tell place avail
  omega

/-- What is in the buffer behind `buf_ptr`. -/
theorem rest : Segment file s.place (s.buffer.drop s.buf_ptr) := by
  have h1 := hs.ptr
  have h2 := hs.start
  have h := hs.seg.drop hs.ptr
  have he : s.pos - s.buffer.length + s.buf_ptr = s.place := by unfold place avail; omega
  rwa [he] at h

theorem setPtr {k : ℕ} (hk : k ≤ s.buffer.length) : Coherent file loc { s with buf_ptr := k } :=
  ⟨hk, hs.start, hs.seg, hs.loc_eq, hs.size, hs.eof⟩

theorem clearEof : Coherent file loc { s with eof_reached := false } :=
  ⟨hs.ptr, hs.start, hs.seg, hs.loc_eq, hs.size, fun h => absurd h Bool.false_ne_true⟩

theorem clearBuffer : Coherent file loc { s with buffer := [], buf_ptr := 0 } :=
  ⟨le_rfl, Nat.zero_le _, .nil, hs.loc_eq, hs.size, hs.eof⟩

theorem setBufSize {n : ℕ} (hn : 0 < n) : Coherent file loc (s.ffio_set_buf_size n) :=
  ⟨le_rfl, Nat.zero_le _, .nil, hs.loc_eq, hn, hs.eof⟩

theorem sumBuffer : Coherent file loc s.sumBuffer := ⟨hs.ptr, hs.start, hs.seg, hs.loc_eq, hs.size, hs.eof⟩

end Coherent

/-- A read that fails leaves everything where it was. -/
theorem Coherent.failed (hP : Serves P file loc) (hs : Coherent file loc s) {n : ℕ} (hn : 0 < n) {e : AVERROR} {u : σ}
    (h : P.read_packet s.url n = (.error e, u) ∨ P.read_packet s.url n = (.ok [], u) ∧ e = .EOF) :
    Coherent file loc (({ s with url := u } : AVIOContext σ).failed e) := by
  have hloc : loc u = loc s.url := by
    rcases h with h | ⟨h, -⟩
    · exact hP.read_error _ _ _ _ h
    · exact (hP.read_ok _ _ _ _ h).2.2
  refine ⟨hs.ptr, hs.start, hs.seg, hloc.trans hs.loc_eq, hs.size, fun _ => ?_⟩
  rcases eq_or_ne e .EOF with rfl | he
  · have hend : file.length ≤ loc s.url := by
      refine hP.read_end _ _ u hn ?_
      rcases h with h | ⟨h, -⟩
      · exact .inr h
      · exact .inl h
    exact .inl (hs.loc_eq ▸ hend)
  · refine .inr ?_
    rw [AVIOContext.failed, if_neg he]
    rfl

/-! ### `fill_buffer` -/

/-- What `fill_buffer` can do: nothing at the end of the file; fail, with the buffer as it was or empty; or read bytes,
which are the unread ones then. -/
inductive Filled (file : List UInt8) (loc : σ → ℕ) (s s' : AVIOContext σ) : Prop
  | ended (he : s.eof_reached = true) (hs' : s' = s)
  | failed (he : s.eof_reached = false) (hc : Coherent file loc s') (he' : s'.eof_reached = true) (hp : s'.pos = s.pos)
      (hb : s'.buffer = s.buffer ∧ s'.buf_ptr = s.buf_ptr ∨ s'.avail = 0)
  | read (he : s.eof_reached = false) (hc : Coherent file loc s') (he' : s'.eof_reached = false)
      (ha : 0 < s'.avail) (hp : s'.pos = s.pos + s'.avail)

theorem fillWith_filled (hP : Serves P file loc) {t : AVIOContext σ} (ht : Coherent file loc t) {append : Bool}
    {len : ℕ} (hlen : 0 < len) (he : s.eof_reached = false) (hte : t.eof_reached = false) (hp : t.pos = s.pos)
    (hb : t.buffer = s.buffer ∧ t.buf_ptr = s.buf_ptr ∨ t.avail = 0) :
    Filled file loc s (t.fillWith P append len) := by
  rcases t.wrapper_cases P len with ⟨e, u, hr, hw⟩ | ⟨u, hr, hw⟩ | ⟨bs, u, hr, hbs, hw⟩ <;> rw [fillWith, hw]
  · exact .failed he (ht.failed hP hlen (.inl hr)) rfl hp hb
  · exact .failed he (ht.failed hP hlen (.inr ⟨hr, rfl⟩)) rfl hp hb
  · obtain ⟨hseg, -, hloc⟩ := hP.read_ok _ _ _ _ hr
    rw [ht.loc_eq] at hseg hloc
    have hst := ht.start
    refine .read he ?_ hte ?_ ?_
    · cases append with
      | true =>
        refine ⟨?_, ?_, ?_, hloc, ht.size, fun h => absurd (hte.symm.trans h) Bool.false_ne_true⟩
        · simp
        · simp only [if_true, List.length_append]
          omega
        · have happ : t.pos - t.buffer.length + t.buffer.length = t.pos := by omega
          have := ht.seg.append (happ.symm ▸ hseg)
          simp only [if_true, List.length_append]
          rwa [show t.pos + bs.length - (t.buffer.length + bs.length) = t.pos - t.buffer.length by omega]
      | false =>
        refine ⟨Nat.zero_le _, ?_, ?_, hloc, ht.size, fun h => absurd (hte.symm.trans h) Bool.false_ne_true⟩
        · simp
        · simp only [Bool.false_eq_true, if_false, List.nil_append, Nat.add_sub_cancel]
          exact hseg
    · cases append <;> simp [avail] <;> omega
    · cases append <;> simp [avail, hp]

theorem fill_filled (hP : Serves P file loc) (hs : Coherent file loc s) : Filled file loc s (s.fill_buffer P) := by
  unfold fill_buffer
  split_ifs with he ha
  · exact .ended he rfl
  · have he' : s.eof_reached = false := by simpa using he
    have hsame : s.buffer = s.buffer ∧ s.buf_ptr = s.buf_ptr ∨ s.avail = 0 := .inl ⟨rfl, rfl⟩
    dsimp only
    split_ifs with hk
    · exact fillWith_filled hP hs (Nat.pos_of_ne_zero hk.1) he' he' rfl hsame
    · refine fillWith_filled hP hs ?_ he' he' rfl hsame
      unfold appends at ha
      omega
  · have he' : s.eof_reached = false := by simpa using he
    have hsame : s.sumBuffer.buffer = s.buffer ∧ s.sumBuffer.buf_ptr = s.buf_ptr ∨ s.sumBuffer.avail = 0 :=
      .inl ⟨rfl, rfl⟩
    dsimp only
    split_ifs with hk hz
    · have h0 := Nat.pos_of_ne_zero hk.1
      exact fillWith_filled hP (hs.sumBuffer.setBufSize h0) h0 he' he' rfl (.inr rfl)
    · exact fillWith_filled hP hs.sumBuffer (Nat.pos_of_ne_zero hk.1) he' he' rfl hsame
    · exact fillWith_filled hP hs.sumBuffer hs.size he' he' rfl hsame

namespace Filled
variable {s' : AVIOContext σ} (h : Filled file loc s s')
include h

theorem coherent (hs : Coherent file loc s) : Coherent file loc s' := by
  cases h with
  | ended _ h => exact h ▸ hs
  | failed _ hc => exact hc
  | read _ hc => exact hc

/-- With nothing unread the position stays. -/
theorem place_eq (ha : s.avail = 0) : s'.place = s.place := by
  rw [place_of_avail ha]
  cases h with
  | ended _ h => rw [h, place_of_avail ha]
  | failed _ _ _ hp hb =>
    have ha' : s'.avail = 0 := by
      rcases hb with ⟨h1, h2⟩ | h
      · rw [avail, h1, h2]
        exact ha
      · exact h
    rw [place_of_avail ha', hp]
  | read _ _ _ _ hp => rw [place, hp, Nat.add_sub_cancel]

theorem quiet (ha : s.avail = 0) : s'.Quiet := by
  intro he
  cases h with
  | ended _ h => exact h ▸ ha
  | failed _ _ _ _ hb =>
    rcases hb with ⟨h1, h2⟩ | h
    · rw [avail, h1, h2]
      exact ha
    · exact h
  | read _ _ he' => exact absurd (he'.symm.trans he) Bool.false_ne_true

/-- Nothing is unread only if the end was reached. -/
theorem eof_of_avail (ha : s'.avail = 0) : s'.eof_reached = true := by
  cases h with
  | ended he h => exact h ▸ he
  | failed _ _ he' => exact he'
  | read _ _ _ hpos => omega

end Filled

/-! ### Reading -/

/-- From the position `p` on `buf` was read. -/
structure ReadFrom (file : List UInt8) (loc : σ → ℕ) (p : ℕ) (buf : List UInt8) (s : AVIOContext σ) : Prop where
  coherent : Coherent file loc s
  seg : Segment file p buf
  place : s.place = p + buf.length

namespace ReadFrom
variable {p : ℕ} {buf : List UInt8}

theorem start (hs : Coherent file loc s) : ReadFrom file loc s.place [] s := ⟨hs, .nil, rfl⟩

/-- Bytes from the buffer. -/
theorem copy (h : ReadFrom file loc p buf s) {n : ℕ} (hn : n ≤ s.avail) :
    ReadFrom file loc p (buf ++ (s.buffer.drop s.buf_ptr).take n) { s with buf_ptr := s.buf_ptr + n } := by
  have h1 := h.coherent.ptr
  have h2 := h.coherent.start
  have h3 := h.place
  have hlen : ((s.buffer.drop s.buf_ptr).take n).length = n := by rw [length_rest, Nat.min_eq_left hn]
  unfold avail at hn
  refine ⟨h.coherent.setPtr (by omega), h.seg.append (h3 ▸ h.coherent.rest.take n), ?_⟩
  rw [List.length_append, hlen]
  simp only [AVIOContext.place, avail] at h3 ⊢
  omega

/-- Bytes that do not pass the buffer. -/
theorem bypass (hP : Serves P file loc) (h : ReadFrom file loc p buf s) (ha : s.avail = 0) {n : ℕ} {bs : List UInt8}
    {u : σ} (hr : P.read_packet s.url n = (.ok bs, u)) :
    ReadFrom file loc p (buf ++ bs) { s with url := u, pos := s.pos + bs.length, buffer := [], buf_ptr := 0 } := by
  obtain ⟨hseg, -, hloc⟩ := hP.read_ok _ _ _ _ hr
  rw [h.coherent.loc_eq] at hseg hloc
  have hp : p + buf.length = s.pos := by rw [← h.place, place_of_avail ha]
  refine ⟨⟨le_rfl, Nat.zero_le _, .nil, hloc, h.coherent.size, fun he => ?_⟩, h.seg.append (hp ▸ hseg), ?_⟩
  · exact (h.coherent.eof he).imp_left fun hl => hl.trans (Nat.le_add_right _ _)
  · rw [List.length_append, place_of_avail rfl]
    dsimp only
    omega

theorem fill (hP : Serves P file loc) (h : ReadFrom file loc p buf s) (ha : s.avail = 0) :
    ReadFrom file loc p buf (s.fill_buffer P) :=
  have hf := fill_filled hP h.coherent
  ⟨hf.coherent h.coherent, h.seg, (hf.place_eq ha).trans h.place⟩

theorem failed (hP : Serves P file loc) (h : ReadFrom file loc p buf s) (ha : s.avail = 0) {n : ℕ} (hn : 0 < n)
    {e : AVERROR} {u : σ}
    (hr : P.read_packet s.url n = (.error e, u) ∨ P.read_packet s.url n = (.ok [], u) ∧ e = .EOF) :
    ReadFrom file loc p buf (({ s with url := u } : AVIOContext σ).failed e) := by
  refine ⟨h.coherent.failed hP hn hr, h.seg, Eq.trans ?_ h.place⟩
  rw [place_of_avail ha]
  exact place_of_avail ha

end ReadFrom

/-- `n` bytes were asked for; fewer are read only at the end. -/
structure ReadUpTo (file : List UInt8) (loc : σ → ℕ) (p n : ℕ) (buf : List UInt8) (s : AVIOContext σ) : Prop
    extends ReadFrom file loc p buf s where
  length_le : buf.length ≤ n
  short : buf.length < n → s.avail = 0 ∧ s.eof_reached = true

/-- The loop of `avio_read` with the bytes `buf` read so far. -/
theorem readLoop_spec (hP : Serves P file loc) {p n : ℕ} (hs : Coherent file loc s) (hp : s.place = p) :
    ReadUpTo file loc p n ((readLoop P).run ([], n, s)).1 ((readLoop P).run ([], n, s)).2 ∧
      (s.Quiet → ((readLoop P).run ([], n, s)).2.Quiet) := by
  let I : List UInt8 × ℕ × AVIOContext σ → Prop := fun x =>
    ReadFrom file loc p x.1 x.2.2 ∧ x.1.length + x.2.1 = n ∧ (s.Quiet → x.2.2.Quiet)
  refine (readLoop P).run_inv (I := I) (Q := fun r => ReadUpTo file loc p n r.1 r.2 ∧ (s.Quiet → r.2.Quiet)) ?_ ?_
    ⟨hp ▸ .start hs, Nat.zero_add n, id⟩
  · rintro ⟨buf, size, t⟩ x ⟨hr, hn, hq⟩ e
    dsimp only at hr hn hq
    simp only [readLoop, readTurn] at e
    split_ifs at e with h0 ha hd hf
    · rcases t.wrapper_cases P size with ⟨e', u, -, hw⟩ | ⟨u, -, hw⟩ | ⟨bs, u, hread, -, hw⟩ <;>
        simp only [hw, Sum.inl.injEq, reduceCtorEq] at e
      subst e
      have hle := (hP.read_ok _ _ _ _ hread).2.1
      refine ⟨hr.bypass hP ha hread, ?_, fun _ _ => rfl⟩
      simp only [List.length_append]
      omega
    · obtain rfl := Sum.inl.inj e
      exact ⟨hr.fill hP ha, hn, fun _ => (fill_filled hP hr.coherent).quiet ha⟩
    · obtain rfl := Sum.inl.inj e
      refine ⟨hr.copy (Nat.min_le_left _ _), ?_, fun h he => absurd (hq h he) ha⟩
      simp only [List.length_append, length_rest]
      omega
  · rintro ⟨buf, size, t⟩ r ⟨hr, hn, hq⟩ e
    dsimp only at hr hn hq
    simp only [readLoop, readTurn] at e
    split_ifs at e with h0 ha hd hf
    · obtain rfl := Sum.inr.inj e
      exact ⟨⟨hr, by dsimp only; omega, fun h => by dsimp only at h; omega⟩, hq⟩
    · have hle : buf.length ≤ n := by omega
      have hpos := Nat.pos_of_ne_zero h0
      rcases t.wrapper_cases P size with ⟨e', u, hread, hw⟩ | ⟨u, hread, hw⟩ | ⟨bs, u, -, -, hw⟩ <;>
        simp only [hw, Sum.inr.injEq, reduceCtorEq] at e <;> subst e
      · exact ⟨⟨hr.failed hP ha hpos (.inl hread), hle, fun _ => ⟨ha, rfl⟩⟩, fun _ _ => ha⟩
      · exact ⟨⟨hr.failed hP ha hpos (.inr ⟨hread, rfl⟩), hle, fun _ => ⟨ha, rfl⟩⟩, fun _ _ => ha⟩
    · obtain rfl := Sum.inr.inj e
      have hfill := fill_filled hP hr.coherent
      refine ⟨⟨hr.fill hP ha, ?_, fun _ => ⟨hf, hfill.eof_of_avail hf⟩⟩, fun _ _ => hf⟩
      dsimp only
      omega

/-- At the end of the file `fill_buffer` finds nothing. -/
theorem fill_end (hP : Serves P file loc) (hs : Coherent file loc s) (hend : file.length ≤ s.pos) :
    (s.fill_buffer P).eof_reached = true := by
  cases fill_filled hP hs with
  | ended he h => rwa [h]
  | failed _ _ he' => exact he'
  | read _ hc _ ha hp =>
    have hlen : ((s.fill_buffer P).buffer.drop (s.fill_buffer P).buf_ptr).length = (s.fill_buffer P).avail :=
      List.length_drop
    have hle := hc.rest.length_le (List.length_pos_iff.mp (hlen ▸ ha))
    rw [hlen, place, hp] at hle
    omega

theorem feof_spec (hP : Serves P file loc) (hs : Coherent file loc s) :
    Coherent file loc (s.avio_feof P).2 ∧ (s.Quiet → (s.avio_feof P).2.place = s.place ∧ (s.avio_feof P).2.Quiet) := by
  unfold avio_feof
  split_ifs with he
  · have hf := fill_filled hP hs.clearEof
    refine ⟨hf.coherent hs.clearEof, fun hq => ?_⟩
    have ha : ({ s with eof_reached := false } : AVIOContext σ).avail = 0 := hq he
    exact ⟨hf.place_eq ha, hf.quiet ha⟩
  · exact ⟨hs, fun hq => ⟨rfl, hq⟩⟩

/-- At the end of the file there is no more, or an error is pending. -/
theorem Coherent.ended (hs : Coherent file loc s) (hq : s.Quiet) (he : s.eof_reached = true) :
    file.length ≤ s.place ∨ s.error.isSome = true := by
  rw [place_of_avail (hq he)]
  exact hs.eof he

/-- An answer to a call that asks for `n` bytes at the position `p`. -/
structure ReadsAt (file : List UInt8) (p n : ℕ) (r : Except AVERROR (List UInt8) × AVIOContext σ) : Prop where
  quiet : r.2.Quiet
  ok : ∀ bs, r.1 = .ok bs → Segment file p bs ∧ r.2.place = p + bs.length ∧ bs.length ≤ n ∧ (0 < n → bs ≠ [])
  error : ∀ e, r.1 = .error e → r.2.place = p ∧ (file.length ≤ p ∨ r.2.error.isSome = true)

theorem nothingRead_coherent (hP : Serves P file loc) (hs : Coherent file loc s) :
    Coherent file loc (s.nothingRead P).2 := by
  unfold nothingRead
  cases s.error with
  | some e => exact hs
  | none =>
    have h := (feof_spec hP hs).1
    rcases hr : s.avio_feof P with ⟨_ | _, s'⟩ <;> rw [hr] at h <;> exact h

theorem nothingRead_nil {bs : List UInt8} (h : (s.nothingRead P).1 = .ok bs) : bs = [] := by
  unfold nothingRead at h
  cases he : s.error with
  | some e =>
    rw [he] at h
    cases h
  | none =>
    rw [he] at h
    rcases hr : s.avio_feof P with ⟨_ | _, s'⟩ <;> rw [hr] at h <;> cases h
    rfl

/-- A call that has read nothing changes no position. With the end before it, it returns an error. -/
theorem nothingRead_readsAt (hP : Serves P file loc) (hs : Coherent file loc s) (hq : s.Quiet) {n : ℕ}
    (hn : 0 < n → s.eof_reached = true) : ReadsAt file s.place n (s.nothingRead P) := by
  rcases he : s.error with _ | e
  · obtain ⟨h1, h2⟩ := feof_spec hP hs
    obtain ⟨hpl, hq'⟩ := h2 hq
    have hend : s.eof_reached = true → (s.avio_feof P).1 = true := by
      intro heof
      have hl : file.length ≤ s.pos := (hs.eof heof).resolve_right (by rw [he]; exact Bool.false_ne_true)
      unfold avio_feof
      rw [if_pos heof]
      exact fill_end hP hs.clearEof hl
    have hfst : (s.avio_feof P).1 = (s.avio_feof P).2.eof_reached := rfl
    rcases hr : s.avio_feof P with ⟨_ | _, s'⟩ <;> rw [hr] at h1 hpl hq' hend hfst <;> dsimp only at hfst hpl
    · have hnr : s.nothingRead P = (.ok [], s') := by simp only [nothingRead, he, hr]
      rw [hnr]
      refine ⟨hq', fun bs h => ?_, fun e h => ?_⟩
      · obtain rfl := Except.ok.inj h
        exact ⟨.nil, hpl, Nat.zero_le _, fun h => absurd (hend (hn h)) Bool.false_ne_true⟩
      · cases h
    · have hnr : s.nothingRead P = (.error .EOF, s') := by simp only [nothingRead, he, hr]
      rw [hnr]
      refine ⟨hq', fun bs h => ?_, fun e h => ⟨hpl, hpl ▸ h1.ended hq' hfst.symm⟩⟩
      cases h
  · have hnr : s.nothingRead P = (.error e, s) := by simp only [nothingRead, he]
    rw [hnr]
    refine ⟨hq, fun bs h => ?_, fun e' h => ⟨rfl, .inr (by rw [he]; rfl)⟩⟩
    cases h

/-- `avio_read` either reads bytes of the file at its position or stays there, and reads less than it is asked for only
at the end. -/
theorem read_spec (hP : Serves P file loc) (hs : Coherent file loc s) (n : ℕ) :
    Coherent file loc (s.avio_read P n).2 ∧
    (s.Quiet → ReadsAt file s.place n (s.avio_read P n) ∧
      ∀ bs, (s.avio_read P n).1 = .ok bs → bs.length < n →
        file.length ≤ s.place + bs.length ∨ (s.avio_read P n).2.error.isSome = true) := by
  obtain ⟨⟨⟨hc, hseg, hpl⟩, hle, hshort⟩, hq⟩ := readLoop_spec hP (n := n) hs rfl
  rcases hr : (readLoop P).run ([], n, s) with ⟨_ | ⟨b, bs⟩, s'⟩ <;> rw [hr] at hc hseg hpl hle hshort hq <;>
    dsimp only at hc hseg hpl hle hshort hq
  · have hread : s.avio_read P n = s'.nothingRead P := by simp only [avio_read, hr]
    rw [hread]
    refine ⟨nothingRead_coherent hP hc, fun hs' => ?_⟩
    have hR := nothingRead_readsAt hP hc (hq hs') (fun hn => (hshort hn).2)
    rw [hpl] at hR
    exact ⟨hR, fun bs h hlt => absurd (nothingRead_nil h) ((hR.ok bs h).2.2.2 (by omega))⟩
  · have hread : s.avio_read P n = (.ok (b :: bs), s') := by simp only [avio_read, hr]
    rw [hread]
    refine ⟨hc, fun hs' => ⟨⟨hq hs', fun bs' h => ?_, fun e h => ?_⟩, fun bs' h hlt => ?_⟩⟩
    · obtain rfl := Except.ok.inj h
      exact ⟨hseg, hpl, hle, fun _ => List.cons_ne_nil _ _⟩
    · cases h
    · obtain rfl := Except.ok.inj h
      exact hpl ▸ hc.ended (hq hs') (hshort hlt).2

/-- The buffer of `avio_read_partial` or of `avio_r8`: with nothing unread it is filled. -/
structure Refilled (file : List UInt8) (loc : σ → ℕ) (s s' : AVIOContext σ) : Prop where
  coherent : Coherent file loc s'
  place : s.Quiet → s'.place = s.place ∧ s'.Quiet
  ended : s'.avail = 0 → s'.eof_reached = true

theorem Filled.refilled {s' t : AVIOContext σ} (h : Filled file loc t s') (ht : Coherent file loc t) (ha : t.avail = 0)
    (hp : t.place = s.place) : Refilled file loc s s' :=
  ⟨h.coherent ht, fun _ => ⟨(h.place_eq ha).trans hp, h.quiet ha⟩, h.eof_of_avail⟩

theorem Refilled.refl (hs : Coherent file loc s) (ha : s.avail ≠ 0) : Refilled file loc s s :=
  ⟨hs, fun hq => ⟨rfl, hq⟩, fun h => absurd h ha⟩

theorem readPartial_spec (hP : Serves P file loc) (hs : Coherent file loc s) (n : ℕ) :
    Coherent file loc ( s.avio_read_partial P n).2 ∧
    (s.Quiet → ReadsAt file s.place n ( s.avio_read_partial P n)) := by
  have hR : Refilled file loc s
      (if s.avail = 0 then ({ s with buffer := [], buf_ptr := 0 } : AVIOContext σ).fill_buffer P else s) := by
    split_ifs with ha
    · exact (fill_filled hP hs.clearBuffer).refilled hs.clearBuffer rfl
        ((place_of_avail rfl).trans (place_of_avail ha).symm)
    · exact .refl hs ha
  unfold avio_read_partial
  dsimp only
  generalize (if s.avail = 0 then ({ s with buffer := [], buf_ptr := 0 } : AVIOContext σ).fill_buffer P else s) = t
    at hR ⊢
  have hptr := hR.coherent.ptr
  have hlen := length_rest t n
  have htake : (t.buffer.drop t.buf_ptr).take n = (t.buffer.drop t.buf_ptr).take (min n t.avail) := by
    have hall : (t.buffer.drop t.buf_ptr).take t.avail = t.buffer.drop t.buf_ptr :=
      List.take_of_length_le (le_of_eq List.length_drop)
    rw [← List.take_take, hall]
  have hcopy := (ReadFrom.start hR.coherent).copy (Nat.min_le_right n t.avail)
  rw [List.nil_append, ← htake, ← hlen] at hcopy
  generalize (t.buffer.drop t.buf_ptr).take n = bs at hlen hcopy ⊢
  obtain ⟨hc, hseg, hpl⟩ := hcopy
  split_ifs with hnil
  · refine ⟨nothingRead_coherent hP hc, fun hq => ?_⟩
    obtain ⟨hp, hq'⟩ := hR.place hq
    subst hnil
    rw [← hp, show t.place = _ from hpl.symm]
    refine nothingRead_readsAt hP hc hq' fun hn => hR.ended ?_
    rw [List.length_nil] at hlen
    omega
  · refine ⟨hc, fun hq => ⟨fun he => ?_, fun bs' h => ?_, fun e h => ?_⟩⟩
    · have ha := (hR.place hq).2 he
      rw [ha, Nat.min_zero] at hlen
      exact absurd (List.length_eq_zero_iff.mp hlen) hnil
    · obtain rfl := Except.ok.inj h
      rw [← (hR.place hq).1]
      exact ⟨hseg, hpl, by omega, fun _ => hnil⟩
    · cases h

theorem r8_spec (hP : Serves P file loc) (hs : Coherent file loc s) :
    Coherent file loc (s.avio_r8 P).2 ∧
    (s.Quiet → (s.avio_r8 P).2.Quiet ∧
      (file[s.place]? = some (s.avio_r8 P).1 ∧ (s.avio_r8 P).2.place = s.place + 1 ∨
        (s.avio_r8 P).1 = 0 ∧ (s.avio_r8 P).2.place = s.place ∧
          (file.length ≤ s.place ∨ (s.avio_r8 P).2.error.isSome = true))) := by
  have hR : Refilled file loc s (if s.buffer.length ≤ s.buf_ptr then s.fill_buffer P else s) := by
    split_ifs with ha
    · have ha' : s.avail = 0 := Nat.sub_eq_zero_of_le ha
      exact (fill_filled hP hs).refilled hs ha' rfl
    · refine .refl hs ?_
      unfold avail
      omega
  unfold avio_r8
  dsimp only
  generalize (if s.buffer.length ≤ s.buf_ptr then s.fill_buffer P else s) = t at hR ⊢
  have hc := hR.coherent
  rcases hb : t.buffer[t.buf_ptr]? with _ | b
  · refine ⟨hc, fun hq => ⟨(hR.place hq).2, .inr ⟨rfl, (hR.place hq).1, ?_⟩⟩⟩
    have ha : t.avail = 0 := Nat.sub_eq_zero_of_le (List.getElem?_eq_none_iff.mp hb)
    exact (hR.place hq).1 ▸ hc.ended (hR.place hq).2 (hR.ended ha)
  · obtain ⟨hlt, -⟩ := List.getElem?_eq_some_iff.mp hb
    have hpos : 1 ≤ t.avail := by unfold avail; omega
    refine ⟨hc.setPtr hlt, fun hq => ⟨fun he => ?_, .inl ⟨?_, ?_⟩⟩⟩
    · have := (hR.place hq).2 he
      omega
    · rw [← (hR.place hq).1]
      exact hc.rest.getElem? (n := 0) (by rw [List.getElem?_drop]; exact hb)
    · rw [← (hR.place hq).1]
      have := ((ReadFrom.start hc).copy hpos).place
      rwa [List.nil_append, length_rest, Nat.min_eq_left hpos] at this

/-! ### Seeking -/

/-- A seek to `offset` that succeeds arrives there. -/
structure SeeksTo (file : List UInt8) (loc : σ → ℕ) (offset : ℕ) (r : Except AVERROR ℕ × AVIOContext σ) : Prop where
  coherent : Coherent file loc r.2
  arrives : ∀ p, r.1 = .ok p → p = offset ∧ r.2.place = offset ∧ r.2.eof_reached = false

theorem fillLoop_spec (hP : Serves P file loc) (hs : Coherent file loc s) {offset : ℕ} (ho : s.pos ≤ offset) :
    Coherent file loc ((fillLoop P offset).run s) ∧
    (((fillLoop P offset).run s).eof_reached = false → offset ≤ ((fillLoop P offset).run s).pos ∧
      ((fillLoop P offset).run s).pos - offset ≤ ((fillLoop P offset).run s).buffer.length) := by
  refine (fillLoop P offset).run_inv
    (I := fun t => Coherent file loc t ∧ t.pos - offset ≤ t.buffer.length)
    (Q := fun t => Coherent file loc t ∧ (t.eof_reached = false → offset ≤ t.pos ∧ t.pos - offset ≤ t.buffer.length))
    ?_ ?_ ⟨hs, by omega⟩
  · rintro t t' ⟨ht, hle⟩ e
    simp only [fillLoop] at e
    split_ifs at e with hlt
    obtain rfl := Sum.inl.inj e
    cases fill_filled hP ht with
    | ended he => exact absurd (hlt.2.symm.trans he) Bool.false_ne_true
    | failed _ hc _ hp => exact ⟨hc, by omega⟩
    | read _ hc _ _ hp =>
      have : (t.fill_buffer P).avail ≤ (t.fill_buffer P).buffer.length := Nat.sub_le _ _
      exact ⟨hc, by omega⟩
  · rintro t t' ⟨ht, hle⟩ e
    simp only [fillLoop] at e
    split_ifs at e with hlt
    obtain rfl := Sum.inr.inj e
    refine ⟨ht, fun he => ⟨?_, hle⟩⟩
    by_contra hn
    exact hlt ⟨by omega, he⟩

theorem seekTurn_spec (hP : Serves P file loc) {again : AVIOContext σ → ℕ → Except AVERROR ℕ × AVIOContext σ}
    {offset : ℕ}
    (hagain : ∀ t, Coherent file loc t → SeeksTo file loc offset (again t offset)) (hs : Coherent file loc s) :
    SeeksTo file loc offset (seekTurn P again s offset) := by
  have h1 := hs.ptr
  have h2 := hs.start
  -- the protocol is at the position `t` then, or where it was
  have hto : ∀ f, P.seek = some f → ∀ t : ℕ,
      (∀ e u, f s.url t = (.error e, u) → Coherent file loc { s with url := u }) ∧
      (∀ q u, f s.url t = (.ok q, u) → Coherent file loc
        { s with url := u, buffer := [], buf_ptr := 0, pos := t, eof_reached := false }) := by
    intro f hf t
    refine ⟨fun e u he => ⟨hs.ptr, hs.start, hs.seg, ?_, hs.size, hs.eof⟩, fun q u hq => ?_⟩
    · exact (hP.seek_error _ hf _ _ _ _ he).trans hs.loc_eq
    · exact ⟨le_rfl, Nat.zero_le _, .nil, hP.seek_ok _ hf _ _ _ _ hq, hs.size, fun h => absurd h Bool.false_ne_true⟩
  unfold seekTurn
  dsimp only
  split_ifs with hin hfwd heof hback
  · -- inside the buffer
    refine ⟨(hs.clearEof).setPtr (by dsimp only; omega), fun p hp => ?_⟩
    obtain rfl := Except.ok.inj hp
    refine ⟨rfl, ?_, rfl⟩
    simp only [place, avail]
    omega
  · -- forward, and the end comes first
    have hlt : ¬ ((offset : ℤ) - (s.pos - s.buffer.length) ≤ s.buffer.length) :=
      fun h => hin ⟨hfwd.2.2, hfwd.2.1, h⟩
    refine ⟨(fillLoop_spec hP hs (by omega)).1, fun p hp => ?_⟩
    cases hp
  · -- forward
    have hlt : ¬ ((offset : ℤ) - (s.pos - s.buffer.length) ≤ s.buffer.length) :=
      fun h => hin ⟨hfwd.2.2, hfwd.2.1, h⟩
    obtain ⟨hc, hpos⟩ := fillLoop_spec hP hs (show s.pos ≤ offset by omega)
    obtain ⟨hle, hlen⟩ := hpos (by simpa using heof)
    refine ⟨hc.clearEof.setPtr (Nat.sub_le _ _), fun p hp => ?_⟩
    obtain rfl := Except.ok.inj hp
    refine ⟨rfl, ?_, rfl⟩
    simp only [place, avail]
    omega
  · -- shortly before the buffer
    rcases hseek : P.seek with _ | seek
    · refine ⟨hs, fun p hp => ?_⟩
      cases hp
    · dsimp only
      rcases hr : seek s.url (((s.pos : ℤ) - s.buffer.length) -
        min ((s.buffer.length / 2 : ℕ) : ℤ) (s.pos - s.buffer.length)).toNat with ⟨e | q, u⟩
      · refine ⟨(hto _ hseek _).1 _ _ hr, fun p hp => ?_⟩
        cases hp
      · have hc := (hto _ hseek _).2 _ _ hr
        exact hagain _ ((fill_filled hP hc).coherent hc)
  · -- in the file
    rcases hseek : P.seek with _ | seek
    · refine ⟨hs, fun p hp => ?_⟩
      cases hp
    · dsimp only
      rcases hr : seek s.url offset with ⟨e | q, u⟩
      · refine ⟨(hto _ hseek _).1 _ _ hr, fun p hp => ?_⟩
        cases hp
      · refine ⟨(hto _ hseek _).2 _ _ hr, fun p hp => ?_⟩
        exact ⟨(Except.ok.inj hp).symm, rfl, rfl⟩

theorem seekTo_spec (hP : Serves P file loc) (hs : Coherent file loc s) (offset : ℕ) :
    SeeksTo file loc offset (s.seekTo P offset) := by
  refine seekTurn_spec hP (fun t ht => seekTurn_spec hP (fun t' ht' => ⟨ht', fun p hp => ?_⟩) ht) hs
  cases hp

/-- A call of itself is for a position in the buffer or behind it. -/
theorem seekTurn_forward {f g : AVIOContext σ → ℕ → Except AVERROR ℕ × AVIOContext σ} {offset : ℕ}
    (h : (s.pos : ℤ) - s.buffer.length ≤ offset) : seekTurn P f s offset = seekTurn P g s offset := by
  unfold seekTurn
  dsimp only
  split_ifs with _ _ _ hback
  · rfl
  · rfl
  · rfl
  · omega
  · rfl

/-- An empty buffer is filled from its position on. -/
theorem fill_start (he : s.eof_reached = false) (hb : s.buffer = []) :
    ((s.fill_buffer P).pos : ℤ) - (s.fill_buffer P).buffer.length = s.pos := by
  have hwith : ∀ (t : AVIOContext σ) (append : Bool) (len : ℕ), t.buffer = [] → t.pos = s.pos →
      ((t.fillWith P append len).pos : ℤ) - (t.fillWith P append len).buffer.length = s.pos := by
    intro t append len htb htp
    rcases t.wrapper_cases P len with ⟨e, u, -, hw⟩ | ⟨u, -, hw⟩ | ⟨bs, u, -, -, hw⟩ <;> rw [fillWith, hw]
    · simp [failed, htb, htp]
    · simp [failed, htb, htp]
    · simp [htb, htp]
  unfold fill_buffer
  rw [if_neg (by rw [he]; exact Bool.false_ne_true)]
  dsimp only
  split_ifs
  · exact hwith _ _ _ hb rfl
  · exact hwith _ _ _ hb rfl
  · exact hwith _ _ _ rfl rfl
  · exact hwith _ _ _ hb rfl
  · exact hwith _ _ _ hb rfl

theorem seekTurn_congr {f g : AVIOContext σ → ℕ → Except AVERROR ℕ × AVIOContext σ} {offset : ℕ}
    (h : ∀ t : AVIOContext σ, (t.pos : ℤ) - t.buffer.length ≤ offset → f t offset = g t offset) :
    seekTurn P f s offset = seekTurn P g s offset := by
  unfold seekTurn
  dsimp only
  split_ifs with _ _ _ hback
  · rfl
  · rfl
  · rfl
  · cases P.seek with
    | none => rfl
    | some seek =>
      dsimp only
      split
      · rfl
      · refine h _ ?_
        rw [fill_start rfl rfl]
        dsimp only
        omega
  · rfl

/-- `seekTo` is the `avio_seek` that calls itself. -/
theorem seekTo_eq (offset : ℕ) : s.seekTo P offset = seekTurn P (seekTo P) s offset :=
  seekTurn_congr fun _ ht => seekTurn_forward ht

/-! ### Runs -/

inductive IOOp
  | read (n : ℕ)
  | readPartial (n : ℕ)
  | r8
  | feof
  | seek (offset : ℤ) (whence : Whence)
  | ensure_seekback (n : ℕ)
  /-- `ffio_set_buf_size` to `n + 1` bytes. -/
  | set_buf_size (n : ℕ)
  | init_checksum (update : Option (ℕ → List UInt8 → ℕ)) (checksum : ℕ)
  | get_checksum

inductive IOResult
  | bytes (r : Except AVERROR (List UInt8))
  | byte (b : UInt8)
  | eof (b : Bool)
  | loc (r : Except AVERROR ℤ)
  | checksum (c : Option ℕ)
  | done

variable (P) in
/-- An operation: its result and the state after it. -/
def op (s : AVIOContext σ) : IOOp → IOResult × AVIOContext σ
  | .read n => (s.avio_read P n).map .bytes id
  | .readPartial n => ( s.avio_read_partial P n).map .bytes id
  | .r8 => (s.avio_r8 P).map .byte id
  | .feof => (s.avio_feof P).map .eof id
  | .seek offset whence => (s.avio_seek P offset whence).map .loc id
  | .ensure_seekback n => (.done, s.ffio_ensure_seekback n)
  | .set_buf_size n => (.done, s.ffio_set_buf_size (n + 1))
  | .init_checksum update checksum => (.done, s.ffio_init_checksum update checksum)
  | .get_checksum => (s.ffio_get_checksum.map .checksum id)

/-- What a file answers to an operation at the position `p`, and the position after it; `none` is a position that is
not known. `err` says that an error is pending. -/
inductive Answers (file : List UInt8) (err : Bool) : IOOp → IOResult → Option ℕ → Option ℕ → Prop
  | read {n p : ℕ} {bs : List UInt8} (h : Segment file p bs) (hn : bs.length ≤ n) (hpos : 0 < n → bs ≠ [])
      (hshort : bs.length < n → file.length ≤ p + bs.length ∨ err = true) :
      Answers file err (.read n) (.bytes (.ok bs)) (some p) (some (p + bs.length))
  | readEnd {n p : ℕ} {e : AVERROR} (h : file.length ≤ p ∨ err = true) :
      Answers file err (.read n) (.bytes (.error e)) (some p) (some p)
  | readPartial {n p : ℕ} {bs : List UInt8} (h : Segment file p bs) (hn : bs.length ≤ n) (hpos : 0 < n → bs ≠ []) :
      Answers file err (.readPartial n) (.bytes (.ok bs)) (some p) (some (p + bs.length))
  | readPartialEnd {n p : ℕ} {e : AVERROR} (h : file.length ≤ p ∨ err = true) :
      Answers file err (.readPartial n) (.bytes (.error e)) (some p) (some p)
  | byte {p : ℕ} {b : UInt8} (h : file[p]? = some b) : Answers file err .r8 (.byte b) (some p) (some (p + 1))
  | byteEnd {p : ℕ} (h : file.length ≤ p ∨ err = true) : Answers file err .r8 (.byte 0) (some p) (some p)
  | feof {p : ℕ} {b : Bool} (h : b = true → file.length ≤ p ∨ err = true) :
      Answers file err .feof (.eof b) (some p) (some p)
  | seekSet {p : Option ℕ} (q : ℕ) : Answers file err (.seek q .SEEK_SET) (.loc (.ok q)) p (some q)
  | seekCur {p q : ℕ} {offset : ℤ} (h : p + offset = q) :
      Answers file err (.seek offset .SEEK_CUR) (.loc (.ok q)) (some p) (some q)
  | seekError {p : Option ℕ} {offset : ℤ} {w : Whence} {e : AVERROR} :
      Answers file err (.seek offset w) (.loc (.error e)) p none
  | seekback {p : Option ℕ} {n : ℕ} : Answers file err (.ensure_seekback n) .done p p
  /-- What is unread in the buffer is skipped. -/
  | setBufSize {p : Option ℕ} {n : ℕ} : Answers file err (.set_buf_size n) .done p none
  | initChecksum {p : Option ℕ} {u : Option (ℕ → List UInt8 → ℕ)} {v : ℕ} :
      Answers file err (.init_checksum u v) .done p p
  | getChecksum {p : Option ℕ} {c : Option ℕ} : Answers file err .get_checksum (.checksum c) p p
  | unknown {o : IOOp} {r : IOResult} (h : ∀ offset, o ≠ .seek offset .SEEK_SET) : Answers file err o r none none

/-- A run, with the result of each operation and whether an error is pending after it. -/
def run (P : IOCallbacks σ) : AVIOContext σ → List IOOp → List (IOOp × IOResult × Bool)
  | _, [] => []
  | s, o :: os => (o, (s.op P o).1, (s.op P o).2.error.isSome) :: run P (s.op P o).2 os

/-- The results are those of a file that is read from the position `p` on. -/
def AnswersAll (file : List UInt8) : Option ℕ → List (IOOp × IOResult × Bool) → Prop
  | _, [] => True
  | p, (o, r, err) :: xs => ∃ p', Answers file err o r p p' ∧ AnswersAll file p' xs

theorem seekSet_cases (hP : Serves P file loc) (hs : Coherent file loc s) (offset : ℤ) :
    (∃ e s', s.seekSet P offset = (.error e, s') ∧ Coherent file loc s') ∨
    ∃ (q : ℕ) (s' : AVIOContext σ), s.seekSet P offset = (.ok q, s') ∧ offset = q ∧ Coherent file loc s' ∧
      s'.place = q ∧ s'.Quiet := by
  unfold seekSet
  split_ifs with hneg
  · exact .inl ⟨_, _, rfl, hs⟩
  · lift offset to ℕ using not_lt.mp hneg
    have h := seekTo_spec hP hs offset
    dsimp only
    rw [Int.toNat_natCast]
    rcases hr : s.seekTo P offset with ⟨e | q, s'⟩ <;> rw [hr] at h
    · exact .inl ⟨e, s', rfl, h.coherent⟩
    · obtain ⟨rfl, hp, he⟩ := h.arrives q rfl
      exact .inr ⟨q, s', rfl, rfl, h.coherent, hp, fun h => absurd (he.symm.trans h) Bool.false_ne_true⟩

/-- The context is at the position `p`. -/
structure At (file : List UInt8) (loc : σ → ℕ) (p : Option ℕ) (s : AVIOContext σ) : Prop where
  coherent : Coherent file loc s
  known : ∀ q, p = some q → s.place = q ∧ s.Quiet

namespace At
variable {p : Option ℕ}

theorem unknown (hs : Coherent file loc s) : At file loc none s := ⟨hs, fun q h => by cases h⟩

theorem place {q : ℕ} (hs : Coherent file loc s) (hp : s.place = q) (hq : s.Quiet) : At file loc (some q) s :=
  ⟨hs, fun _ h => Option.some.inj h ▸ ⟨hp, hq⟩⟩

theorem answers_read (hP : Serves P file loc) (h : At file loc p s) (n : ℕ) :
    ∃ p', Answers file (s.avio_read P n).2.error.isSome (.read n) (.bytes (s.avio_read P n).1) p p' ∧
      At file loc p' (s.avio_read P n).2 := by
  obtain ⟨hc, hread⟩ := read_spec hP h.coherent n
  rcases p with _ | p
  · exact ⟨none, .unknown fun _ h => (by cases h), unknown hc⟩
  · obtain ⟨rfl, hq⟩ := h.known _ rfl
    obtain ⟨hR, hshort⟩ := hread hq
    rcases hr : s.avio_read P n with ⟨e | bs, s'⟩ <;> rw [hr] at hc hR hshort
    · obtain ⟨hp, hend⟩ := hR.error e rfl
      exact ⟨_, .readEnd hend, place hc hp hR.quiet⟩
    · obtain ⟨hseg, hp, hle, hpos⟩ := hR.ok bs rfl
      exact ⟨_, .read hseg hle hpos (hshort bs rfl), place hc hp hR.quiet⟩

theorem answers_partial (hP : Serves P file loc) (h : At file loc p s) (n : ℕ) :
    ∃ p', Answers file ( s.avio_read_partial P n).2.error.isSome (.readPartial n) (.bytes ( s.avio_read_partial P n).1)
      p p' ∧ At file loc p' ( s.avio_read_partial P n).2 := by
  obtain ⟨hc, hread⟩ := readPartial_spec hP h.coherent n
  rcases p with _ | p
  · exact ⟨none, .unknown fun _ h => (by cases h), unknown hc⟩
  · obtain ⟨rfl, hq⟩ := h.known _ rfl
    have hR := hread hq
    rcases hr : s.avio_read_partial P n with ⟨e | bs, s'⟩ <;> rw [hr] at hc hR
    · obtain ⟨hp, hend⟩ := hR.error e rfl
      exact ⟨_, .readPartialEnd hend, place hc hp hR.quiet⟩
    · obtain ⟨hseg, hp, hle, hpos⟩ := hR.ok bs rfl
      exact ⟨_, .readPartial hseg hle hpos, place hc hp hR.quiet⟩

theorem answers_seek (hP : Serves P file loc) (h : At file loc p s) (offset : ℤ) (w : Whence) :
    ∃ p', Answers file (s.avio_seek P offset w).2.error.isSome (.seek offset w) (.loc (s.avio_seek P offset w).1) p p' ∧
      At file loc p' (s.avio_seek P offset w).2 := by
  have hset := seekSet_cases hP h.coherent
  cases w with
  | SEEK_SET =>
    rcases hset offset with ⟨e, s', hr, hc⟩ | ⟨q, s', hr, rfl, hc, hp, hq⟩ <;> rw [avio_seek, hr]
    · exact ⟨none, .seekError, unknown hc⟩
    · exact ⟨some q, .seekSet q, place hc hp hq⟩
  | SEEK_CUR =>
    rcases p with _ | p
    · refine ⟨none, .unknown fun _ h => (by cases h), unknown ?_⟩
      unfold avio_seek
      split_ifs
      · exact h.coherent
      · exact h.coherent
      · rcases hset (s.tell + offset) with ⟨e, s', hr, hc⟩ | ⟨q, s', hr, -, hc, -⟩ <;> rw [hr] <;> exact hc
    · obtain ⟨rfl, hq⟩ := h.known _ rfl
      unfold avio_seek
      split_ifs with h0
      · rw [h.coherent.tell_eq]
        exact ⟨_, .seekCur (by omega), h⟩
      · exact ⟨none, .seekError, unknown h.coherent⟩
      · rcases hset (s.tell + offset) with ⟨e, s', hr, hc⟩ | ⟨q, s', hr, hto, hc, hp, hq⟩ <;> rw [hr]
        · exact ⟨none, .seekError, unknown hc⟩
        · exact ⟨some q, .seekCur (by rw [← hto, h.coherent.tell_eq]), place hc hp hq⟩
  | SEEK_END => exact ⟨none, .seekError, unknown h.coherent⟩

/-- One operation. -/
theorem step (hP : Serves P file loc) (h : At file loc p s) (o : IOOp) :
    ∃ p', Answers file (s.op P o).2.error.isSome o (s.op P o).1 p p' ∧ At file loc p' (s.op P o).2 := by
  cases o with
  | read n => exact h.answers_read hP n
  | readPartial n => exact h.answers_partial hP n
  | r8 =>
    obtain ⟨hc, hread⟩ := r8_spec hP h.coherent
    rcases p with _ | p
    · exact ⟨none, .unknown fun _ h => (by cases h), unknown hc⟩
    · obtain ⟨rfl, hq⟩ := h.known _ rfl
      obtain ⟨hq', ⟨hb, hp⟩ | ⟨hz, hp, hend⟩⟩ := hread hq
      · exact ⟨_, .byte hb, place hc hp hq'⟩
      · have he : s.op P .r8 = (.byte 0, (s.avio_r8 P).2) := by rw [← hz]; rfl
        rw [he]
        exact ⟨_, .byteEnd hend, place hc hp hq'⟩
  | feof =>
    obtain ⟨hc, hfeof⟩ := feof_spec hP h.coherent
    rcases p with _ | p
    · exact ⟨none, .unknown fun _ h => (by cases h), unknown hc⟩
    · obtain ⟨rfl, hq⟩ := h.known _ rfl
      obtain ⟨hp, hq'⟩ := hfeof hq
      exact ⟨_, .feof fun he => hp ▸ hc.ended hq' he, place hc hp hq'⟩
  | seek offset w => exact h.answers_seek hP offset w
  | ensure_seekback n =>
    refine ⟨p, .seekback, ?_⟩
    show At file loc p (s.ffio_ensure_seekback n)
    unfold ffio_ensure_seekback
    dsimp only
    split_ifs
    · exact h
    · obtain ⟨h1, h2, h3, h4, -, h6⟩ := h.coherent
      exact ⟨⟨h1, h2, h3, h4, by unfold IO_BUFFER_SIZE; dsimp only; omega, h6⟩, h.known⟩
  | set_buf_size n => exact ⟨none, .setBufSize, unknown (h.coherent.setBufSize (Nat.succ_pos n))⟩
  | init_checksum u v =>
    obtain ⟨h1, h2, h3, h4, h5, h6⟩ := h.coherent
    exact ⟨p, .initChecksum, ⟨h1, h2, h3, h4, h5, h6⟩, h.known⟩
  | get_checksum =>
    obtain ⟨h1, h2, h3, h4, h5, h6⟩ := h.coherent
    exact ⟨p, .getChecksum, ⟨h1, h2, h3, h4, h5, h6⟩, h.known⟩

theorem answersAll (hP : Serves P file loc) (h : At file loc p s) (os : List IOOp) :
    AnswersAll file p (run P s os) := by
  induction os generalizing s p with
  | nil => trivial
  | cons o os ih =>
    obtain ⟨p', ha, h'⟩ := h.step hP o
    exact ⟨p', ha, ih h'⟩

end At

theorem Coherent.ops (hP : Serves P file loc) (hs : Coherent file loc s) (os : List IOOp) :
    Coherent file loc (os.foldl (fun s o => (s.op P o).2) s) := by
  induction os generalizing s with
  | nil => exact hs
  | cons o os ih =>
    obtain ⟨_, -, h⟩ := (At.unknown hs).step hP o
    exact ih h.coherent

/-- A context that `ffio_init_context` has set up, with the protocol at the start. -/
structure Opened (loc : σ → ℕ) (s : AVIOContext σ) : Prop where
  buffer : s.buffer = []
  buf_ptr : s.buf_ptr = 0
  pos : s.pos = 0
  eof : s.eof_reached = false
  error : s.error = none
  size : 0 < s.buffer_size
  loc_eq : loc s.url = 0

theorem Opened.start (h : Opened loc s) : At file loc (some 0) s := by
  have ha : s.avail = 0 := by rw [avail, h.buffer]; exact Nat.zero_sub _
  refine .place ⟨?_, ?_, ?_, h.loc_eq.trans h.pos.symm, h.size, fun he => ?_⟩ ?_ fun _ => ha
  · rw [h.buf_ptr]
    exact Nat.zero_le _
  · rw [h.buffer]
    exact Nat.zero_le _
  · rw [h.buffer]
    exact .nil
  · exact absurd (h.eof.symm.trans he) Bool.false_ne_true
  · rw [place_of_avail ha, h.pos]

/-- Whatever is called in whatever order, and whatever the protocol returns: the results are those of a file that is
read at a position. -/
theorem avio_answers (hP : Serves P file loc) (hs : Opened loc s) (os : List IOOp) :
    AnswersAll file (some 0) (run P s os) :=
  hs.start.answersAll hP os

end AVIOContext

namespace FileContext

theorem serves (c : FileContext) (hb : 0 < c.blocksize) : AVIOContext.Serves c.callbacks c.contents id where
  read_ok u n bs u' h := by
    simp only [callbacks, file_read] at h
    split_ifs at h with hnil
    · cases h
    obtain ⟨hbs, rfl⟩ := Prod.mk.inj h
    obtain rfl := Except.ok.inj hbs
    refine ⟨List.take_prefix _ _, ?_, rfl⟩
    rw [List.length_take]
    omega
  read_error u n e u' h := by
    simp only [callbacks, file_read] at h
    split_ifs at h with hnil
    · exact (Prod.mk.inj h).2.symm
    · cases h
  read_end u n u' hn h := by
    simp only [callbacks, file_read] at h
    split_ifs at h with hnil
    · have hlen := congrArg List.length hnil
      rw [List.length_take, List.length_drop, List.length_nil] at hlen
      simp only [id]
      omega
    · rcases h with h | h <;> simp only [Prod.mk.injEq, Except.ok.injEq, reduceCtorEq, false_and] at h
      exact absurd h.1 hnil
  seek_ok f hf u p q u' h := by
    obtain rfl := Option.some.inj hf
    exact (Prod.mk.inj h).2.symm
  seek_error f hf u p e u' h := by
    obtain rfl := Option.some.inj hf
    cases h

end FileContext

/-- A file of four bytes, read with a buffer of two and a file system that reads one byte at a time. -/
theorem avio_answers_small : AVIOContext.AnswersAll [1, 2, 3, 4] (some 0)
    (AVIOContext.run (FileContext.callbacks ⟨[1, 2, 3, 4], 1⟩) { url := 0, buffer_size := 2 }
      [.r8, .read 2, .seek 1 .SEEK_SET, .read 9, .feof, .seek (-3) .SEEK_CUR, .readPartial 3]) :=
  AVIOContext.avio_answers (FileContext.serves ⟨[1, 2, 3, 4], 1⟩ Nat.one_pos)
    ⟨rfl, rfl, rfl, rfl, rfl, Nat.two_pos, rfl⟩ _

/-! ### The checksum -/

namespace AVIOContext
variable {σ : Type} {P : IOCallbacks σ} {file : List UInt8} {loc : σ → ℕ} {s t : AVIOContext σ}
variable {f : ℕ → UInt8 → ℕ} {v : ℕ} {bs : List UInt8}

/-- `bs` was read with the initial checksum `v`; a part of it is still in the buffer. -/
structure Summed (f : ℕ → UInt8 → ℕ) (v : ℕ) (bs : List UInt8) (s : AVIOContext σ) (c : Checksum) : Prop where
  checksum : s.checksum = some c
  update : c.update = fun v bs => bs.foldl f v
  ptr : c.ptr ≤ s.buf_ptr
  sum : ((s.buffer.take s.buf_ptr).drop c.ptr).foldl f c.checksum = bs.foldl f v

theorem Summed.get {c : Checksum} (h : Summed f v bs s c) : s.ffio_get_checksum.1 = some (bs.foldl f v) := by
  rw [ffio_get_checksum, h.checksum, Option.map_some, h.update, ← h.sum]

theorem Summed.copy {c : Checksum} (h : Summed f v bs s c) (hs : Coherent file loc s) (n : ℕ) :
    Summed f v (bs ++ (s.buffer.drop s.buf_ptr).take n) { s with buf_ptr := s.buf_ptr + n } c := by
  have hptr := h.ptr
  have hle := hs.ptr
  refine ⟨h.checksum, h.update, by dsimp only; omega, ?_⟩
  rw [List.foldl_append, ← h.sum, ← List.foldl_append, ← List.drop_append_of_le_length, ← List.take_add]
  rw [List.length_take]
  omega

/-- Bytes are read behind the buffer. -/
theorem Summed.append {c : Checksum} (h : Summed f v bs s c) (hs : Coherent file loc s) (ha : s.avail = 0) {len : ℕ}
    (hne : (s.fillWith P true len).avail ≠ 0) : Summed f v bs (s.fillWith P true len) c := by
  have hle := hs.ptr
  have hend : s.buf_ptr = s.buffer.length := by unfold avail at ha; omega
  rcases s.wrapper_cases P len with ⟨e, u, -, hw⟩ | ⟨u, -, hw⟩ | ⟨bs', u, -, -, hw⟩ <;> rw [fillWith, hw] at hne ⊢
  · exact absurd ha hne
  · exact absurd ha hne
  · refine ⟨h.checksum, h.update, hend ▸ h.ptr, ?_⟩
    simp only [if_true, List.take_left]
    rw [← h.sum, hend, List.take_length]

/-- Bytes are read over the buffer, which is summed up. -/
theorem Summed.over {c : Checksum} (hc : s.checksum = some c) (hu : c.update = fun v bs => bs.foldl f v)
    (hp : c.ptr = 0) (hsum : c.checksum = bs.foldl f v) (ha : s.avail = 0) {len : ℕ} (hne : (s.fillWith P false len).avail ≠ 0) :
    Summed f v bs (s.fillWith P false len) c := by
  rcases s.wrapper_cases P len with ⟨e, u, -, hw⟩ | ⟨u, -, hw⟩ | ⟨bs', u, -, -, hw⟩ <;> rw [fillWith, hw] at hne ⊢
  · exact absurd ha hne
  · exact absurd ha hne
  · refine ⟨hc, hu, hp.le, ?_⟩
    simp only [Bool.false_eq_true, if_false, List.take_zero, List.drop_nil, List.foldl_nil]
    exact hsum

/-- Filled with more bytes, the buffer has the same sum. -/
theorem Summed.fill {c : Checksum} (h : Summed f v bs s c) (hs : Coherent file loc s) (ha : s.avail = 0)
    (hne : (s.fill_buffer P).avail ≠ 0) : ∃ c', Summed f v bs (s.fill_buffer P) c' := by
  have hle := hs.ptr
  have hend : s.buf_ptr = s.buffer.length := by unfold avail at ha; omega
  unfold fill_buffer at hne ⊢
  split_ifs at hne ⊢ with he happ
  · exact ⟨c, h⟩
  · exact ⟨c, h.append hs ha hne⟩
  · have hsum : ((if c.ptr < s.buffer.length then c.update c.checksum (s.buffer.drop c.ptr) else c.checksum) =
        bs.foldl f v) := by
      rw [← h.sum, hend, List.take_length]
      split_ifs with hlt
      · rw [h.update]
      · rw [List.drop_of_length_le (not_lt.mp hlt)]
        rfl
    have hc : s.sumBuffer.checksum = some { c with checksum := bs.foldl f v, ptr := 0 } := by
      rw [sumBuffer, h.checksum, Option.map_some, hsum]
    dsimp only at hne ⊢
    split_ifs at hne ⊢
    · have hc' : (s.sumBuffer.ffio_set_buf_size s.sumBuffer.orig_buffer_size).checksum = _ := hc
      exact ⟨_, .over hc' h.update rfl rfl rfl hne⟩
    · exact ⟨_, .over hc h.update rfl rfl ha hne⟩
    · exact ⟨_, .over hc h.update rfl rfl ha hne⟩

/-- A read that gets all its bytes. -/
theorem Summed.read (hP : Serves P file loc) {c : Checksum} (h : Summed f v bs s c) (hs : Coherent file loc s) {n : ℕ}
    {cs : List UInt8} (hr : s.avio_read P n = (.ok cs, t)) (hn : cs.length = n) (hpos : 0 < n) :
    ∃ c', Summed f v (bs ++ cs) t c' := by
  let I : List UInt8 × ℕ × AVIOContext σ → Prop := fun x =>
    Coherent file loc x.2.2 ∧ x.1.length + x.2.1 = n ∧ ∃ c', Summed f v (bs ++ x.1) x.2.2 c'
  have hloop : ((readLoop P).run ([], n, s)).1.length = n →
      ∃ c', Summed f v (bs ++ ((readLoop P).run ([], n, s)).1) ((readLoop P).run ([], n, s)).2 c' := by
    refine (readLoop P).run_inv (I := I) (Q := fun r => r.1.length = n → ∃ c', Summed f v (bs ++ r.1) r.2 c') ?_ ?_
      ⟨hs, Nat.zero_add n, c, (List.append_nil bs).symm ▸ h⟩
    · rintro ⟨buf, size, u⟩ x ⟨hu, hlen, c, hsum⟩ e
      dsimp only at hu hlen hsum
      simp only [readLoop, readTurn] at e
      split_ifs at e with h0 ha hd hf
      · -- with a checksum, the buffer is not passed by
        rw [hsum.checksum] at hd
        exact absurd hd.2 Bool.false_ne_true
      · obtain rfl := Sum.inl.inj e
        exact ⟨(fill_filled hP hu).coherent hu, hlen, hsum.fill hu ha hf⟩
      · obtain rfl := Sum.inl.inj e
        refine ⟨((ReadFrom.start hu).copy (Nat.min_le_left _ _)).coherent, ?_, c, ?_⟩
        · simp only [List.length_append, length_rest]
          omega
        · rw [← List.append_assoc]
          exact hsum.copy hu _
    · rintro ⟨buf, size, u⟩ r ⟨hu, hlen, c, hsum⟩ e hall
      dsimp only at hu hlen hsum
      simp only [readLoop, readTurn] at e
      split_ifs at e with h0 ha hd hf
      · obtain rfl := Sum.inr.inj e
        exact ⟨c, hsum⟩
      · rw [hsum.checksum] at hd
        exact absurd hd.2 Bool.false_ne_true
      · obtain rfl := Sum.inr.inj e
        dsimp only at hall
        omega
  rcases hrun : (readLoop P).run ([], n, s) with ⟨_ | ⟨b, buf⟩, u⟩ <;> rw [hrun] at hloop
  · have hread : s.avio_read P n = u.nothingRead P := by simp only [avio_read, hrun]
    have hnil : cs = [] := nothingRead_nil (s := u) (P := P) (by rw [← hread, hr])
    rw [hnil] at hn
    exact absurd hn.symm hpos.ne'
  · have hread : s.avio_read P n = (.ok (b :: buf), u) := by simp only [avio_read, hrun]
    obtain ⟨h1, rfl⟩ := Prod.mk.inj (hread.symm.trans hr)
    obtain rfl := Except.ok.inj h1
    exact hloop hn

/-- `avio_r8` that gets a byte. -/
theorem Summed.r8 (hP : Serves P file loc) {c : Checksum} (h : Summed f v bs s c) (hs : Coherent file loc s)
    {b : UInt8} (hr : s.avio_r8 P = (b, t)) (he : t.eof_reached = false) : ∃ c', Summed f v (bs ++ [b]) t c' := by
  have hfill : ∀ u, u = (if s.buffer.length ≤ s.buf_ptr then s.fill_buffer P else s) →
      Coherent file loc u ∧ (u.avail = 0 → u.eof_reached = true) ∧ (u.avail ≠ 0 → ∃ c', Summed f v bs u c') := by
    rintro u rfl
    split_ifs with ha
    · have ha' : s.avail = 0 := Nat.sub_eq_zero_of_le ha
      have hf := fill_filled hP hs
      exact ⟨hf.coherent hs, hf.eof_of_avail, h.fill hs ha'⟩
    · refine ⟨hs, fun ha' => ?_, fun _ => ⟨c, h⟩⟩
      unfold avail at ha'
      omega
  unfold avio_r8 at hr
  dsimp only at hr
  generalize hu : (if s.buffer.length ≤ s.buf_ptr then s.fill_buffer P else s) = u at hr
  obtain ⟨hc, hend, hsum⟩ := hfill u hu.symm
  rcases hb : u.buffer[u.buf_ptr]? with _ | b' <;> rw [hb] at hr <;> obtain ⟨rfl, rfl⟩ := Prod.mk.inj hr
  · have ha : u.avail = 0 := Nat.sub_eq_zero_of_le (List.getElem?_eq_none_iff.mp hb)
    exact absurd (he.symm.trans (hend ha)) Bool.false_ne_true
  · obtain ⟨hlt, hget⟩ := List.getElem?_eq_some_iff.mp hb
    have ha : u.avail ≠ 0 := by unfold avail; omega
    obtain ⟨c', hc'⟩ := hsum ha
    have htake : (u.buffer.drop u.buf_ptr).take 1 = [b'] := by
      rw [List.drop_eq_getElem_cons hlt, hget, List.take_succ_cons, List.take_zero]
    exact ⟨c', htake ▸ hc'.copy hc 1⟩

/-- Bytes are read one by one or in pieces, and none is missing. -/
inductive Takes (P : IOCallbacks σ) : AVIOContext σ → List UInt8 → AVIOContext σ → Prop
  | nil {s : AVIOContext σ} : Takes P s [] s
  | read {s t u : AVIOContext σ} {n : ℕ} {bs cs : List UInt8} (h : s.avio_read P n = (.ok bs, t)) (hn : bs.length = n)
      (hpos : 0 < n) (rest : Takes P t cs u) : Takes P s (bs ++ cs) u
  | r8 {s t u : AVIOContext σ} {b : UInt8} {cs : List UInt8} (h : s.avio_r8 P = (b, t)) (he : t.eof_reached = false)
      (rest : Takes P t cs u) : Takes P s (b :: cs) u

theorem Summed.takes (hP : Serves P file loc) {c : Checksum} (h : Summed f v bs s c) (hs : Coherent file loc s)
    {cs : List UInt8} (ht : Takes P s cs t) : ∃ c', Summed f v (bs ++ cs) t c' := by
  induction ht generalizing bs c with
  | nil => exact ⟨c, (List.append_nil bs).symm ▸ h⟩
  | @read s t u n bs' cs hr hn hpos _ ih =>
    obtain ⟨c', h'⟩ := h.read hP hs hr hn hpos
    have hc : Coherent file loc t := by
      have := (read_spec hP hs n).1
      rwa [hr] at this
    rw [← List.append_assoc]
    exact ih h' hc
  | @r8 s t u b cs hr he _ ih =>
    obtain ⟨c', h'⟩ := h.r8 hP hs hr he
    have hc : Coherent file loc t := by
      have := (r8_spec hP hs).1
      rwa [hr] at this
    rw [List.append_cons]
    exact ih h' hc

/-- `ffio_get_checksum` sums up the bytes that were read since `ffio_init_checksum`, however often the buffer was filled
in between. -/
theorem checksum_takes (hP : Serves P file loc) (h₀ : Opened loc s) (os : List IOOp)
    (ht : Takes P ((os.foldl (fun s o => (s.op P o).2) s).ffio_init_checksum (some fun v bs => bs.foldl f v) v) bs t) :
    t.ffio_get_checksum.1 = some (bs.foldl f v) := by
  obtain ⟨h1, h2, h3, h4, h5, h6⟩ := h₀.start.coherent.ops hP os
  generalize os.foldl (fun s o => (s.op P o).2) s = s at *
  have hinit : Summed f v [] (s.ffio_init_checksum (some fun v bs => bs.foldl f v) v)
      ⟨fun v bs => bs.foldl f v, v, s.buf_ptr⟩ := by
    refine ⟨rfl, rfl, le_rfl, ?_⟩
    simp only [ffio_init_checksum]
    rw [List.drop_of_length_le (List.length_take_le _ _)]
  obtain ⟨c, hc⟩ := hinit.takes hP ⟨h1, h2, h3, h4, h5, h6⟩ ht
  exact hc.get

end AVIOContext

/-- The sum of three bytes, of which the buffer has room for two. -/
theorem checksum_takes_small :
    (let P := FileContext.callbacks ⟨[1, 2, 3, 4], 1000⟩
     let s : AVIOContext ℕ := (AVIOContext.avio_seek P { url := 0, buffer_size := 2 } 1 .SEEK_SET).2
     let s := s.ffio_init_checksum (some fun v bs => bs.foldl (fun v b => v + b.toNat) v) 10
     ((((s.avio_r8 P).2.avio_read P 2).2).ffio_get_checksum).1) = some 19 := by
  have ht : AVIOContext.Takes (FileContext.callbacks ⟨[1, 2, 3, 4], 1000⟩)
      (AVIOContext.ffio_init_checksum (AVIOContext.avio_seek (FileContext.callbacks ⟨[1, 2, 3, 4], 1000⟩)
        { url := 0, buffer_size := 2 } 1 .SEEK_SET).2 (some fun v bs => bs.foldl (fun v b => v + b.toNat) v) 10)
      (2 :: ([3, 4] ++ [])) _ := .r8 rfl rfl (.read rfl rfl Nat.two_pos .nil)
  exact AVIOContext.checksum_takes (FileContext.serves ⟨[1, 2, 3, 4], 1000⟩ (by decide))
    (s := { url := 0, buffer_size := 2 }) ⟨rfl, rfl, rfl, rfl, rfl, Nat.two_pos, rfl⟩ [.seek 1 .SEEK_SET] ht

end LibAV
