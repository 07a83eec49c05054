import XPlayer.LibAV.AVIORun

/-!
# The data of a packet

`av_get_packet` reads the bytes of a packet from a buffered file, large ones in pieces. If the protocol has no errors
(`Reliable`), then `avio_seek` arrives at every position of the file and `av_get_packet` gets the bytes that are there,
after any run of other operations (`sample_bytes`).
-/

namespace LibAV
open XPlayer

def SANE_CHUNK_SIZE : ℕ := 50000000

/-- What `av_get_packet` makes of a packet. -/
structure RawPacket where
  data : List UInt8
  pos : ℤ
  /-- `AV_PKT_FLAG_CORRUPT` -/
  corrupt : Bool
  deriving DecidableEq

namespace AVIOContext
variable {σ : Type} (P : IOCallbacks σ)

/-- Without `seek` it is `AVERROR(ENOSYS)`. -/
def avio_size (s : AVIOContext σ) : ℤ := if P.seek.isNone then -38 else P.size s.url

/-- No more than one byte beyond the end of the file, if that is known. -/
def ffio_limit (s : AVIOContext σ) (size : ℤ) : ℤ × AVIOContext σ :=
  if s.maxsize < 0 then (size, s)
  else
    let remaining := s.maxsize - s.tell
    let r : ℤ × AVIOContext σ :=
      if remaining < size then
        let newsize := s.avio_size P
        let maxsize := if s.maxsize = 0 ∨ s.maxsize < newsize then (if newsize = 0 then -1 else newsize) else s.maxsize
        (max (maxsize - s.tell) 0, { s with maxsize := maxsize })
      else (remaining, s)
    (if 0 ≤ r.2.maxsize ∧ r.1 + 1 < size then r.1 + 1 else size, r.2)

/-- How much of the `size` bytes is read at once. -/
def chunk (s : AVIOContext σ) (size : ℕ) : ℕ × AVIOContext σ :=
  if SANE_CHUNK_SIZE / 10 < size then
    let r := s.ffio_limit P size
    ((if r.2.maxsize < 0 then min r.1 SANE_CHUNK_SIZE else r.1).toNat, r.2)
  else (size, s)

/-- Only `maxsize` changes, and at least one byte is left of `size`. -/
theorem limit_cases (s : AVIOContext σ) {size : ℤ} (h : 0 < size) :
    ∃ m n, s.ffio_limit P size = (n, { s with maxsize := m }) ∧ 0 < n ∧ n ≤ size := by
  have hr : ∀ (r : ℤ) (t : AVIOContext σ), 0 ≤ r ∨ size ≤ r →
      ∃ n, (if 0 ≤ t.maxsize ∧ r + 1 < size then r + 1 else size) = n ∧ 0 < n ∧ n ≤ size := by
    intro r t hr
    refine ⟨_, rfl, ?_⟩
    split_ifs <;> omega
  unfold ffio_limit
  dsimp only
  by_cases hm : s.maxsize < 0
  · rw [if_pos hm]
    exact ⟨s.maxsize, size, rfl, h, le_rfl⟩
  · rw [if_neg hm]
    by_cases hlt : s.maxsize - s.tell < size
    · rw [if_pos hlt]
      obtain ⟨n, hn, hpos, hle⟩ := hr _ { s with maxsize := _ } (.inl (Int.le_max_right _ _))
      exact ⟨_, n, Prod.ext hn rfl, hpos, hle⟩
    · rw [if_neg hlt]
      obtain ⟨n, hn, hpos, hle⟩ := hr _ s (.inr (not_lt.mp hlt))
      exact ⟨s.maxsize, n, Prod.ext hn rfl, hpos, hle⟩

theorem chunk_cases (s : AVIOContext σ) (size : ℕ) :
    ∃ m n, s.chunk P size = (n, { s with maxsize := m }) ∧ (0 < size → 0 < n) ∧ n ≤ size := by
  unfold chunk
  split_ifs with h
  · obtain ⟨m, n, hl, hpos, hle⟩ := s.limit_cases P (Int.natCast_pos.mpr (Nat.zero_lt_of_lt h))
    rw [hl]
    refine ⟨m, _, rfl, ?_⟩
    dsimp only
    unfold SANE_CHUNK_SIZE
    split_ifs <;> omega
  · exact ⟨s.maxsize, size, rfl, id, le_rfl⟩

/-- A turn of the loop of `append_packet_chunked` with the data of the packet and the number of bytes that are missing;
a turn in which fewer bytes are read than asked for is the last. -/
def chunkTurn : List UInt8 × ℕ × AVIOContext σ →
    (List UInt8 × ℕ × AVIOContext σ) ⊕ (Except AVERROR Unit × List UInt8 × ℕ × AVIOContext σ)
  | (data, size, s) =>
    let c := s.chunk P size
    match c.2.avio_read P c.1 with
    | (.error e, s) => .inr (.error e, data, size, s)
    | (.ok bs, s) =>
      if bs.length ≠ c.1 then .inr (.ok (), data ++ bs, size, s)
      else if c.1 < size then .inl (data ++ bs, size - c.1, s)
      else .inr (.ok (), data ++ bs, 0, s)

theorem chunkTurn_lt {x y : List UInt8 × ℕ × AVIOContext σ} (h : chunkTurn P x = .inl y) : y.2.1 < x.2.1 := by
  obtain ⟨data, size, s⟩ := x
  simp only [chunkTurn] at h
  rcases hr : (s.chunk P size).2.avio_read P (s.chunk P size).1 with ⟨e | bs, t⟩ <;> rw [hr] at h <;> dsimp only at h
  · cases h
  · split_ifs at h with h1 h2
    obtain rfl := Sum.inl.inj h
    obtain ⟨m, n, hc, hpos, -⟩ := s.chunk_cases P size
    rw [hc] at h2 ⊢
    dsimp only at h2 ⊢
    have := hpos (by omega)
    omega

def chunkLoop : Loop (List UInt8 × ℕ × AVIOContext σ)
    (Except AVERROR Unit × List UInt8 × ℕ × AVIOContext σ) where
  turn := chunkTurn P
  rank := fun x => x.2.1
  turn_lt := fun _ _ => chunkTurn_lt P

/-- The data of the packet and whether some of it is missing. -/
def append_packet_chunked (s : AVIOContext σ) (data : List UInt8) (size : ℕ) :
    Except AVERROR (List UInt8 × Bool) × AVIOContext σ :=
  match (chunkLoop P).run (data, size, s) with
  | (.error e, data', missing, s) =>
    (if data.length < data'.length then .ok (data', decide (0 < missing)) else .error e, s)
  | (.ok _, data', missing, s) => (.ok (data', decide (0 < missing)), s)

def av_get_packet (s : AVIOContext σ) (size : ℕ) : Except AVERROR RawPacket × AVIOContext σ :=
  let r := s.append_packet_chunked P [] size
  (r.1.map fun (data, corrupt) => ⟨data, s.tell, corrupt⟩, r.2)

/-! ### Protocols without errors -/

structure Reliable : Prop where
  read : ∀ u n e u', P.read_packet u n = (.error e, u') → e = .EOF
  seek : ∃ f, P.seek = some f ∧ ∀ u p, ∃ q u', f u p = (.ok q, u')

variable {P} {file : List UInt8} {loc : σ → ℕ} {s : AVIOContext σ} {b : Bool}

/-- No error is pending, and `seekable` is `b`. -/
def Intact (s : AVIOContext σ) (b : Bool) : Prop := s.error = none ∧ s.seekable = b

namespace Intact

theorem fillWith (hR : Reliable P) (h : s.Intact b) (append : Bool) (len : ℕ) : (s.fillWith P append len).Intact b := by
  rcases s.wrapper_cases P len with ⟨e, u, hr, hw⟩ | ⟨u, hr, hw⟩ | ⟨bs, u, hr, -, hw⟩ <;>
    rw [AVIOContext.fillWith, hw]
  · obtain rfl := hR.read _ _ _ _ hr
    exact h
  · exact h
  · exact h

theorem fill (hR : Reliable P) (h : s.Intact b) : (s.fill_buffer P).Intact b := by
  unfold fill_buffer
  dsimp only
  split_ifs
  · exact h
  · exact fillWith hR h _ _
  · exact fillWith hR h _ _
  · exact fillWith (s := s.sumBuffer.ffio_set_buf_size _) hR h _ _
  · exact fillWith (s := s.sumBuffer) hR h _ _
  · exact fillWith (s := s.sumBuffer) hR h _ _

theorem feof (hR : Reliable P) (h : s.Intact b) : (s.avio_feof P).2.Intact b := by
  unfold avio_feof
  dsimp only
  split_ifs
  · exact fill (s := { s with eof_reached := false }) hR h
  · exact h

theorem nothingRead (hR : Reliable P) (h : s.Intact b) : (s.nothingRead P).2.Intact b := by
  have hf := feof hR h
  have he : s.error = none := h.1
  rcases hr : s.avio_feof P with ⟨_ | _, t⟩ <;> rw [hr] at hf <;> simp only [AVIOContext.nothingRead, he, hr] <;>
    exact hf

theorem read (hR : Reliable P) (h : s.Intact b) (n : ℕ) : (s.avio_read P n).2.Intact b := by
  have hloop : ((readLoop P).run ([], n, s)).2.Intact b := by
    refine (readLoop P).run_inv (I := fun x => x.2.2.Intact b) (Q := fun r => r.2.Intact b) ?_ ?_ h
    · rintro ⟨buf, size, t⟩ x ht e
      simp only [readLoop, readTurn] at e
      split_ifs at e
      · rcases t.wrapper_cases P size with ⟨e', u, -, hw⟩ | ⟨u, -, hw⟩ | ⟨bs, u, -, -, hw⟩ <;>
          simp only [hw, Sum.inl.injEq, reduceCtorEq] at e
        subst e
        exact ht
      · obtain rfl := Sum.inl.inj e
        exact fill hR ht
      · obtain rfl := Sum.inl.inj e
        exact ht
    · rintro ⟨buf, size, t⟩ x ht e
      simp only [readLoop, readTurn] at e
      split_ifs at e
      · obtain rfl := Sum.inr.inj e
        exact ht
      · rcases t.wrapper_cases P size with ⟨e', u, hr, hw⟩ | ⟨u, -, hw⟩ | ⟨bs, u, -, -, hw⟩ <;>
          simp only [hw, Sum.inr.injEq, reduceCtorEq] at e <;> subst e
        · obtain rfl := hR.read _ _ _ _ hr
          exact ht
        · exact ht
      · obtain rfl := Sum.inr.inj e
        exact fill hR ht
  unfold avio_read
  rcases hrun : (readLoop P).run ([], n, s) with ⟨_ | ⟨_, buf⟩, t⟩ <;> rw [hrun] at hloop
  · exact nothingRead hR hloop
  · exact hloop

theorem readPartial (hR : Reliable P) (h : s.Intact b) (n : ℕ) : ( s.avio_read_partial P n).2.Intact b := by
  have hfill : (if s.avail = 0 then ({ s with buffer := [], buf_ptr := 0 } : AVIOContext σ).fill_buffer P
      else s).Intact b := by
    split_ifs
    · exact fill (s := { s with buffer := [], buf_ptr := 0 }) hR h
    · exact h
  unfold avio_read_partial
  dsimp only
  generalize (if s.avail = 0 then ({ s with buffer := [], buf_ptr := 0 } : AVIOContext σ).fill_buffer P else s) = t
    at hfill ⊢
  split_ifs
  · exact nothingRead (s := { t with buf_ptr := _ }) hR hfill
  · exact hfill

theorem fillLoop (hR : Reliable P) (h : s.Intact b) (offset : ℕ) :
    ((AVIOContext.fillLoop P offset).run s).Intact b := by
  refine (AVIOContext.fillLoop P offset).run_inv (I := fun t => t.Intact b) (Q := fun t => t.Intact b) ?_ ?_ h
  · intro t t' ht e
    simp only [AVIOContext.fillLoop] at e
    split_ifs at e
    obtain rfl := Sum.inl.inj e
    exact fill hR ht
  · intro t t' ht e
    simp only [AVIOContext.fillLoop] at e
    split_ifs at e
    obtain rfl := Sum.inr.inj e
    exact ht

theorem seekTurn (hR : Reliable P) {again : AVIOContext σ → ℕ → Except AVERROR ℕ × AVIOContext σ} {offset : ℕ}
    (hagain : ∀ t : AVIOContext σ, t.Intact b → (again t offset).2.Intact b) (h : s.Intact b) :
    (AVIOContext.seekTurn P again s offset).2.Intact b := by
  obtain ⟨f, hf, hseek⟩ := hR.seek
  unfold AVIOContext.seekTurn
  dsimp only
  split_ifs
  · exact h
  · exact fillLoop hR h offset
  · exact fillLoop hR h offset
  · rw [hf]
    dsimp only
    split
    · exact h
    · exact hagain _ (fill (s := { s with buffer := [], buf_ptr := 0, eof_reached := false, pos := _, url := _ }) hR h)
  · rw [hf]
    dsimp only
    split <;> exact h

theorem seekSet (hR : Reliable P) (h : s.Intact b) (offset : ℤ) : (s.seekSet P offset).2.Intact b := by
  unfold AVIOContext.seekSet
  split_ifs
  · exact h
  · exact seekTurn hR (fun t ht => seekTurn hR (fun t' ht' => ht') ht) h

theorem op (hR : Reliable P) (h : s.Intact b) (o : IOOp) : (s.op P o).2.Intact b := by
  cases o with
  | read n => exact h.read hR n
  | readPartial n => exact h.readPartial hR n
  | r8 =>
    show (s.avio_r8 P).2.Intact b
    have hfill : (if s.buffer.length ≤ s.buf_ptr then s.fill_buffer P else s).Intact b := by
      split_ifs
      · exact h.fill hR
      · exact h
    unfold avio_r8
    dsimp only
    generalize (if s.buffer.length ≤ s.buf_ptr then s.fill_buffer P else s) = t at hfill ⊢
    split <;> exact hfill
  | feof => exact h.feof hR
  | seek offset w =>
    show (s.avio_seek P offset w).2.Intact b
    cases w with
    | SEEK_SET => exact h.seekSet hR offset
    | SEEK_CUR =>
      unfold avio_seek
      split_ifs
      · exact h
      · exact h
      · exact h.seekSet hR _
    | SEEK_END => exact h
  | ensure_seekback n =>
    show (s.ffio_ensure_seekback n).Intact b
    unfold ffio_ensure_seekback
    dsimp only
    split_ifs <;> exact h
  | set_buf_size n => exact h
  | init_checksum u v => exact h
  | get_checksum => exact h

end Intact

/-- The stream is at the position `p`, and no error has happened. -/
structure IntactAt (file : List UInt8) (loc : σ → ℕ) (b : Bool) (p : Option ℕ) (s : AVIOContext σ) : Prop extends
    At file loc p s where
  intact : s.Intact b

/-- At a known or unknown position, after any operations. -/
theorem IntactAt.ops (hP : Serves P file loc) (hR : Reliable P) {p : Option ℕ} (h : IntactAt file loc b p s)
    (os : List IOOp) : ∃ p', IntactAt file loc b p' (os.foldl (fun s o => (s.op P o).2) s) := by
  induction os generalizing s p with
  | nil => exact ⟨p, h⟩
  | cons o os ih =>
    obtain ⟨p', -, h'⟩ := h.step hP o
    exact ih ⟨h', h.intact.op hR o⟩

/-- Nothing is in the way of a seek inside the file. -/
theorem seekTurn_exact (hP : Serves P file loc) (hR : Reliable P)
    {again : AVIOContext σ → ℕ → Except AVERROR ℕ × AVIOContext σ} {offset : ℕ} (ho : offset ≤ file.length)
    (hagain : ∀ t : AVIOContext σ, Coherent file loc t → t.Intact b → (t.pos : ℤ) - t.buffer.length ≤ offset →
      (again t offset).1 = .ok offset)
    (hs : Coherent file loc s) (hi : s.Intact b) : (seekTurn P again s offset).1 = .ok offset := by
  obtain ⟨f, hf, hseek⟩ := hR.seek
  unfold seekTurn
  dsimp only
  split_ifs with hin hfwd heof hback
  · rfl
  · -- the end cannot come first
    have hlt : ¬ ((offset : ℤ) - (s.pos - s.buffer.length) ≤ s.buffer.length) :=
      fun h => hin ⟨hfwd.2.2, hfwd.2.1, h⟩
    have hnot : ∀ t : AVIOContext σ, Coherent file loc t → t.Intact b → t.pos < offset → t.eof_reached = false := by
      intro t ht hti hpos
      by_contra he
      rcases ht.eof (by simpa using he) with hl | hl
      · omega
      · rw [hti.1] at hl
        cases hl
    have hloop : ((fillLoop P offset).run s).eof_reached = false := by
      refine (fillLoop P offset).run_inv
        (I := fun t => Coherent file loc t ∧ t.Intact b ∧ t.eof_reached = false)
        (Q := fun t => t.eof_reached = false) ?_ ?_ ⟨hs, hi, hnot s hs hi (by omega)⟩
      · rintro t t' ⟨ht, hti, -⟩ e
        simp only [fillLoop] at e
        split_ifs at e with hpos
        obtain rfl := Sum.inl.inj e
        have hf := fill_filled hP ht
        refine ⟨hf.coherent ht, hti.fill hR, ?_⟩
        cases hf with
        | ended he => exact absurd (hpos.2.symm.trans he) Bool.false_ne_true
        | failed _ hc _ hp => exact hnot _ hc (hti.fill hR) (hp ▸ hpos.1)
        | read _ _ he' => exact he'
      · rintro t t' ⟨-, -, he⟩ e
        simp only [fillLoop] at e
        split_ifs at e
        obtain rfl := Sum.inr.inj e
        exact he
    exact absurd (heof.symm.trans hloop) (Bool.false_ne_true ·.symm)
  · rfl
  · rw [hf]
    dsimp only
    obtain ⟨q, u, hq⟩ := hseek s.url ((s.pos : ℤ) - s.buffer.length -
      min ((s.buffer.length / 2 : ℕ) : ℤ) (s.pos - s.buffer.length)).toNat
    rw [hq]
    have hc : Coherent file loc { s with url := u, buffer := [], buf_ptr := 0, pos := _, eof_reached := false } :=
      ⟨le_rfl, Nat.zero_le _, .nil, hP.seek_ok _ hf _ _ _ _ hq, hs.size, fun h => absurd h Bool.false_ne_true⟩
    refine hagain _ ((fill_filled hP hc).coherent hc) ?_ ?_
    · refine Intact.fill hR ?_
      exact hi
    · rw [fill_start rfl rfl]
      have := hs.start
      dsimp only
      omega
  · rw [hf]
    dsimp only
    obtain ⟨q, u, hq⟩ := hseek s.url offset
    rw [hq]

theorem seekTo_exact (hP : Serves P file loc) (hR : Reliable P) {offset : ℕ} (ho : offset ≤ file.length)
    (hs : Coherent file loc s) (hi : s.Intact b) : (s.seekTo P offset).1 = .ok offset := by
  rw [seekTo_eq]
  refine seekTurn_exact hP hR ho (fun t ht hti hle => ?_) hs hi
  -- the second call makes no third one
  rw [seekTo, seekTurn_forward (g := fun s offset => (.ok offset, s)) hle]
  exact seekTurn_exact hP hR ho (fun _ _ _ _ => rfl) ht hti

/-- The `n` bytes at the position `p`, or as many as there are. -/
def bytesAt (file : List UInt8) (p n : ℕ) : List UInt8 := (file.drop p).take n

theorem eq_bytesAt {p n : ℕ} {bs : List UInt8} (h : Segment file p bs) (hn : bs.length ≤ n)
    (hend : bs.length < n → file.length ≤ p + bs.length) : bs = bytesAt file p n := by
  rcases hn.eq_or_lt with rfl | hlt
  · exact h.eq_take
  · have hdrop := h.eq_drop (hend hlt)
    rw [bytesAt, ← hdrop, List.take_of_length_le hn]

namespace IntactAt
variable {p : ℕ}

/-- `avio_read` gets the bytes that are there, and fails only if there are none. -/
theorem read_exact (hP : Serves P file loc) (hR : Reliable P) (h : IntactAt file loc b (some p) s) (n : ℕ) :
    ((s.avio_read P n).1 = .ok (bytesAt file p n) ∧ (0 < n → bytesAt file p n ≠ []) ∨
      (∃ e, (s.avio_read P n).1 = .error e) ∧ bytesAt file p n = []) ∧
    IntactAt file loc b (some (p + (bytesAt file p n).length)) (s.avio_read P n).2 := by
  obtain ⟨rfl, hq⟩ := h.known _ rfl
  obtain ⟨hc, hread⟩ := read_spec hP h.coherent n
  obtain ⟨hr, hshort⟩ := hread hq
  have hi := h.intact.read hR n
  have hnone : ¬ (s.avio_read P n).2.error.isSome = true := by rw [hi.1]; exact Bool.false_ne_true
  rcases hres : (s.avio_read P n).1 with e | bs
  · obtain ⟨hp, hend⟩ := hr.error e hres
    have hnil : bytesAt file s.place n = [] := by
      rw [bytesAt, List.drop_of_length_le (hend.resolve_right hnone), List.take_nil]
    rw [hnil]
    exact ⟨.inr ⟨⟨e, rfl⟩, rfl⟩, .place hc hp hr.quiet, hi⟩
  · obtain ⟨hseg, hp, hle, hpos⟩ := hr.ok bs hres
    have heq := eq_bytesAt hseg hle fun hlt => (hshort bs hres hlt).resolve_right hnone
    rw [← heq]
    exact ⟨.inl ⟨rfl, hpos⟩, .place hc hp hr.quiet, hi⟩

theorem setMaxsize {p : Option ℕ} (h : IntactAt file loc b p s) (m : ℤ) :
    IntactAt file loc b p { s with maxsize := m } := by
  obtain ⟨⟨⟨h1, h2, h3, h4, h5, h6⟩, h7⟩, h8⟩ := h
  exact ⟨⟨⟨h1, h2, h3, h4, h5, h6⟩, h7⟩, h8⟩

end IntactAt

theorem bytesAt_add (file : List UInt8) (p m n : ℕ) :
    bytesAt file p (m + n) = bytesAt file p m ++ bytesAt file (p + m) n := by
  rw [bytesAt, bytesAt, bytesAt, List.take_add, List.drop_drop]

/-- Fewer bytes than `m` at `p` are all there are. -/
theorem bytesAt_short {p m n : ℕ} (h : (bytesAt file p m).length < m) (hmn : m ≤ n) :
    bytesAt file p n = bytesAt file p m := by
  have hle : (file.drop p).length ≤ m := by
    rw [bytesAt, List.length_take] at h
    omega
  rw [bytesAt, bytesAt, List.take_of_length_le hle, List.take_of_length_le (hle.trans hmn)]

/-- The loop of `append_packet_chunked` gets all bytes that are there, whatever `maxsize` is. -/
theorem chunkLoop_spec (hP : Serves P file loc) (hR : Reliable P) {p : ℕ} (h : IntactAt file loc b (some p) s)
    (data : List UInt8) (size : ℕ) : ∃ r missing t, (chunkLoop P).run (data, size, s) =
      (r, data ++ bytesAt file p size, missing, t) ∧ IntactAt file loc b (some (p + (bytesAt file p size).length)) t ∧
      (0 < missing ↔ (bytesAt file p size).length < size) := by
  refine (chunkLoop P).run_induct
    (P := fun x r => ∀ p, IntactAt file loc b (some p) x.2.2 → ∃ r' missing t,
      r = (r', x.1 ++ bytesAt file p x.2.1, missing, t) ∧
      IntactAt file loc b (some (p + (bytesAt file p x.2.1).length)) t ∧
      (0 < missing ↔ (bytesAt file p x.2.1).length < x.2.1))
    ?_ ?_ (data, size, s) p h
  · rintro ⟨data, size, s⟩ r e p h
    obtain ⟨m, n, hc, hpos, hle⟩ := s.chunk_cases P size
    obtain ⟨hr, ht⟩ := (h.setMaxsize m).read_exact hP hR n
    simp only [chunkLoop, chunkTurn, hc] at e
    rcases hres : avio_read P { s with maxsize := m } n with ⟨e' | bs, t⟩ <;> rw [hres] at e hr ht <;>
      dsimp only at e hr ht
    · obtain rfl := Sum.inr.inj e
      have hnil : bytesAt file p n = [] := by
        rcases hr with ⟨h, -⟩ | ⟨-, h⟩
        · cases h
        · exact h
      have hall : bytesAt file p size = [] := by
        rcases Nat.eq_zero_or_pos size with rfl | hs
        · rfl
        · rw [bytesAt_short (by rw [hnil]; exact hpos hs) hle, hnil]
      rw [hnil, List.length_nil] at ht
      refine ⟨_, _, _, by rw [hall, List.append_nil], ?_, ?_⟩ <;> rw [hall]
      · exact ht
      · exact Iff.rfl
    · have hbs : bs = bytesAt file p n := by
        rcases hr with ⟨h, -⟩ | ⟨⟨_, h⟩, -⟩
        · exact Except.ok.inj h
        · cases h
      subst hbs
      split_ifs at e with h1 h2
      · obtain rfl := Sum.inr.inj e
        have hlt : (bytesAt file p n).length < n :=
          lt_of_le_of_ne (by rw [bytesAt]; exact List.length_take_le _ _) h1
        refine ⟨_, _, _, by rw [bytesAt_short hlt hle], ?_, ?_⟩ <;> rw [bytesAt_short hlt hle]
        · exact ht
        · dsimp only
          omega
      · obtain rfl := Sum.inr.inj e
        obtain rfl : n = size := by omega
        refine ⟨_, _, _, rfl, ht, ?_⟩
        dsimp only
        omega
  · rintro ⟨data, size, s⟩ x e ih p h
    obtain ⟨m, n, hc, hpos, hle⟩ := s.chunk_cases P size
    obtain ⟨hr, ht⟩ := (h.setMaxsize m).read_exact hP hR n
    simp only [chunkLoop, chunkTurn, hc] at e
    rcases hres : avio_read P { s with maxsize := m } n with ⟨e' | bs, t⟩ <;> rw [hres] at e hr ht <;>
      dsimp only at e hr ht
    · cases e
    · have hbs : bs = bytesAt file p n := by
        rcases hr with ⟨h, -⟩ | ⟨⟨_, h⟩, -⟩
        · exact Except.ok.inj h
        · cases h
      subst hbs
      split_ifs at e with h1 h2
      obtain rfl := Sum.inl.inj e
      have hlen : (bytesAt file p n).length = n := not_not.mp h1
      rw [hlen] at ht
      obtain ⟨r', missing, t', hrun, ht', hmiss⟩ := ih _ ht
      have hsplit := bytesAt_add file p n (size - n)
      rw [Nat.add_sub_cancel' hle] at hsplit
      refine ⟨r', missing, t', ?_, ?_, ?_⟩
      · rw [hrun, hsplit, List.append_assoc]
      · rw [hsplit, List.length_append, hlen, ← Nat.add_assoc]
        exact ht'
      · rw [hmiss, hsplit, List.length_append, hlen]
        dsimp only
        omega

theorem read_zero (hi : s.Intact b) (he : s.eof_reached = false) : s.avio_read P 0 = (.ok [], s) := by
  have hrun : (readLoop P).run ([], 0, s) = ([], s) := (readLoop P).run_stop (by simp [readLoop, readTurn])
  have hfeof : s.avio_feof P = (false, s) := by simp [avio_feof, he]
  have herr : s.error = none := hi.1
  simp only [avio_read, hrun, nothingRead, herr, hfeof]

/-- `av_get_packet` gets the bytes that are there; behind a seek that is so of none, too. -/
theorem get_packet_exact (hP : Serves P file loc) (hR : Reliable P) {p size : ℕ} (h : IntactAt file loc b (some p) s)
    (hin : p + size ≤ file.length) (he : s.eof_reached = false) :
    (s.av_get_packet P size).1 = .ok ⟨bytesAt file p size, p, false⟩ ∧
      IntactAt file loc b (some (p + size)) (s.av_get_packet P size).2 := by
  have htell : s.tell = p := by rw [h.coherent.tell_eq, (h.known p rfl).1]
  rcases Nat.eq_zero_or_pos size with rfl | hpos
  · have hrun : (chunkLoop P).run ([], 0, s) = (.ok (), [], 0, s) := by
      refine (chunkLoop P).run_stop ?_
      simp [chunkLoop, chunkTurn, chunk, SANE_CHUNK_SIZE, read_zero h.intact he]
    simp only [av_get_packet, append_packet_chunked, hrun, htell]
    exact ⟨rfl, h⟩
  · have hlen : (bytesAt file p size).length = size := by
      rw [bytesAt, List.length_take, List.length_drop]
      omega
    obtain ⟨r, missing, t, hrun, ht, hmiss⟩ := chunkLoop_spec hP hR h [] size
    rw [hlen] at ht
    have hm : decide (0 < missing) = false := decide_eq_false (by rw [hmiss, hlen]; exact lt_irrefl _)
    rw [List.nil_append] at hrun
    rcases r with e | u
    · -- an error behind the bytes
      simp only [av_get_packet, append_packet_chunked, hrun, List.length_nil, hlen, if_pos hpos, hm, htell]
      exact ⟨rfl, ht⟩
    · simp only [av_get_packet, append_packet_chunked, hrun, hm, htell]
      exact ⟨rfl, ht⟩

end AVIOContext
end LibAV
