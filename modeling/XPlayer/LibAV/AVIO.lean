import XPlayer.LibAV.Decode
import XPlayer.Lib.Segment

/-!
# Buffered reading

An `AVIOContext` reads a file through a buffer. `fill_buffer` reads on behind the buffer or over it, `avio_read`
copies from the buffer or passes it by, and `avio_seek` moves inside the buffer, reads forward, reads the bytes
before the buffer again, or seeks in the file. `ffio_rewind_with_probe_data` makes a buffer of what was read to
find the format of the file.
-/

namespace LibAV
open XPlayer

def IO_BUFFER_SIZE : ℕ := 32768
def SHORT_SEEK_THRESHOLD : ℤ := 4096

def AVERROR.EPIPE : AVERROR := .other 32
def AVERROR.INVALIDDATA : AVERROR := .other 1094995529

/-- The functions of a protocol with the states `σ`: `read_packet`, which returns no more than is asked for, `seek` to
a position, `seek` with `AVSEEK_SIZE`, and `short_seek_get`. -/
structure IOCallbacks (σ : Type) where
  read_packet : σ → ℕ → Except AVERROR (List UInt8) × σ
  seek : Option (σ → ℕ → Except AVERROR ℕ × σ)
  size : σ → ℤ
  short_seek_get : σ → ℤ := fun _ => 0

/-- `update_checksum` and `checksum`; `ptr` is `checksum_ptr` from the start of the buffer. -/
structure Checksum where
  update : ℕ → List UInt8 → ℕ
  checksum : ℕ
  ptr : ℕ

/-- A context for reading. `buffer` has the bytes from `buffer` to `buf_end`, and `buf_ptr` counts from its start. -/
structure AVIOContext (σ : Type) where
  url : σ
  buffer : List UInt8 := []
  buf_ptr : ℕ := 0
  pos : ℕ := 0
  buffer_size : ℕ := IO_BUFFER_SIZE
  orig_buffer_size : ℕ := IO_BUFFER_SIZE
  eof_reached : Bool := false
  error : Option AVERROR := none
  direct : Bool := false
  seekable : Bool := true
  short_seek_threshold : ℤ := SHORT_SEEK_THRESHOLD
  checksum : Option Checksum := none
  maxsize : ℤ := 0

namespace AVIOContext
variable {σ : Type} (P : IOCallbacks σ)

/-- `buf_end - buf_ptr`. -/
def avail (s : AVIOContext σ) : ℕ := s.buffer.length - s.buf_ptr

/-- `avio_tell`. -/
def tell (s : AVIOContext σ) : ℤ := s.pos - s.buffer.length + s.buf_ptr

/-- Without `max_packet_size` a read of no bytes is the end of the file. -/
def read_packet_wrapper (s : AVIOContext σ) (size : ℕ) : Except AVERROR (List UInt8) × AVIOContext σ :=
  match P.read_packet s.url size with
  | (.ok [], u) => (.error .EOF, { s with url := u })
  | (r, u) => (r, { s with url := u })

/-- A read has failed. -/
def failed (s : AVIOContext σ) (e : AVERROR) : AVIOContext σ :=
  { s with eof_reached := true, error := if e = .EOF then s.error else some e }

def ffio_set_buf_size (s : AVIOContext σ) (buf_size : ℕ) : AVIOContext σ :=
  { s with buffer := [], buf_ptr := 0, buffer_size := buf_size, orig_buffer_size := buf_size }

/-- The checksum of the buffer, before it is overwritten. -/
def sumBuffer (s : AVIOContext σ) : AVIOContext σ :=
  { s with checksum := s.checksum.map fun c =>
      { c with checksum := if c.ptr < s.buffer.length then c.update c.checksum (s.buffer.drop c.ptr) else c.checksum
               ptr := 0 } }

/-- There is room behind what is in the buffer: `dst` is not its start. -/
def appends (s : AVIOContext σ) : Prop := s.buffer ≠ [] ∧ s.buffer.length + IO_BUFFER_SIZE < s.buffer_size

instance (s : AVIOContext σ) : Decidable s.appends := inferInstanceAs (Decidable (_ ∧ _))

/-- A buffer that has grown is made smaller. -/
def shrinks (s : AVIOContext σ) (len : ℕ) : Prop :=
  s.orig_buffer_size ≠ 0 ∧ s.orig_buffer_size < s.buffer_size ∧ s.orig_buffer_size ≤ len

instance (s : AVIOContext σ) (len : ℕ) : Decidable (s.shrinks len) := inferInstanceAs (Decidable (_ ∧ _ ∧ _))

/-- `len` bytes are read to the end of the buffer, or over it. -/
def fillWith (s : AVIOContext σ) (append : Bool) (len : ℕ) : AVIOContext σ :=
  match s.read_packet_wrapper P len with
  | (.error e, s') => s'.failed e
  | (.ok bs, s') =>
    { s' with pos := s.pos + bs.length
              buffer := (if append then s.buffer else []) ++ bs
              buf_ptr := if append then s.buffer.length else 0 }

def fill_buffer (s : AVIOContext σ) : AVIOContext σ :=
  if s.eof_reached then s
  else if s.appends then
    let len := s.buffer_size - s.buffer.length
    s.fillWith P true (if s.shrinks len then s.orig_buffer_size else len)
  else
    let s := s.sumBuffer
    if s.shrinks s.buffer_size then
      (if s.buf_ptr ≠ 0 then s.ffio_set_buf_size s.orig_buffer_size else s).fillWith P false s.orig_buffer_size
    else s.fillWith P false s.buffer_size

/-! ### Reading -/

/-- The next byte, or zero. -/
def avio_r8 (s : AVIOContext σ) : UInt8 × AVIOContext σ :=
  let s := if s.buffer.length ≤ s.buf_ptr then s.fill_buffer P else s
  match s.buffer[s.buf_ptr]? with
  | some b => (b, { s with buf_ptr := s.buf_ptr + 1 })
  | none => (0, s)

/-- A turn of `avio_read`, with the bytes that were read and the number of those that are missing. -/
def readTurn : List UInt8 × ℕ × AVIOContext σ → (List UInt8 × ℕ × AVIOContext σ) ⊕ (List UInt8 × AVIOContext σ)
  | (buf, size, s) =>
    if size = 0 then .inr (buf, s)
    else if s.avail = 0 then
      if (s.direct ∨ s.buffer_size < size) ∧ s.checksum.isNone then
        match s.read_packet_wrapper P size with
        | (.error e, s') => .inr (buf, s'.failed e)
        | (.ok bs, s') =>
          .inl (buf ++ bs, size - bs.length, { s' with pos := s.pos + bs.length, buffer := [], buf_ptr := 0 })
      else
        let s' := s.fill_buffer P
        if s'.avail = 0 then .inr (buf, s') else .inl (buf, size, s')
    else
      let len := min s.avail size
      .inl (buf ++ (s.buffer.drop s.buf_ptr).take len, size - len, { s with buf_ptr := s.buf_ptr + len })

theorem wrapper_cases (s : AVIOContext σ) (size : ℕ) :
    (∃ e u, P.read_packet s.url size = (.error e, u) ∧ s.read_packet_wrapper P size = (.error e, { s with url := u })) ∨
    (∃ u, P.read_packet s.url size = (.ok [], u) ∧ s.read_packet_wrapper P size = (.error .EOF, { s with url := u })) ∨
    (∃ bs u, P.read_packet s.url size = (.ok bs, u) ∧ 0 < bs.length ∧
      s.read_packet_wrapper P size = (.ok bs, { s with url := u })) := by
  rcases h : P.read_packet s.url size with ⟨e | bs, u⟩
  · exact .inl ⟨e, u, rfl, by rw [read_packet_wrapper, h]⟩
  · cases bs with
    | nil => exact .inr (.inl ⟨u, rfl, by rw [read_packet_wrapper, h]⟩)
    | cons b bs => exact .inr (.inr ⟨b :: bs, u, rfl, Nat.succ_pos _, by rw [read_packet_wrapper, h]⟩)

def readLoop : Loop (List UInt8 × ℕ × AVIOContext σ) (List UInt8 × AVIOContext σ) where
  turn := readTurn P
  rank := fun (_, size, s) => 2 * size + if s.avail = 0 then 1 else 0
  turn_lt := by
    rintro ⟨buf, size, s⟩ ⟨buf', size', s'⟩ h
    simp only [readTurn] at h
    split_ifs at h with h0 ha hd hf
    · rcases s.wrapper_cases P size with ⟨e, u, -, hw⟩ | ⟨u, -, hw⟩ | ⟨bs, u, -, hlen, hw⟩ <;>
        simp only [hw, Sum.inl.injEq, Prod.mk.injEq, reduceCtorEq] at h
      obtain ⟨-, rfl, rfl⟩ := h
      dsimp only
      rw [if_pos ha]
      split_ifs <;> omega
    · simp only [Sum.inl.injEq, Prod.mk.injEq] at h
      obtain ⟨-, rfl, rfl⟩ := h
      dsimp only
      rw [if_pos ha, if_neg hf]
      omega
    · simp only [Sum.inl.injEq, Prod.mk.injEq] at h
      obtain ⟨-, rfl, rfl⟩ := h
      dsimp only
      rw [if_neg ha]
      split_ifs <;> omega

def avio_feof (s : AVIOContext σ) : Bool × AVIOContext σ :=
  let s := if s.eof_reached then ({ s with eof_reached := false } : AVIOContext σ).fill_buffer P else s
  (s.eof_reached, s)

/-- What is returned when no byte was read. -/
def nothingRead (s : AVIOContext σ) : Except AVERROR (List UInt8) × AVIOContext σ :=
  match s.error with
  | some e => (.error e, s)
  | none =>
    match s.avio_feof P with
    | (true, s) => (.error .EOF, s)
    | (false, s) => (.ok [], s)

def avio_read (s : AVIOContext σ) (size : ℕ) : Except AVERROR (List UInt8) × AVIOContext σ :=
  match (readLoop P).run ([], size, s) with
  | ([], s) => s.nothingRead P
  | (buf, s) => (.ok buf, s)

def avio_read_partial (s : AVIOContext σ) (size : ℕ) : Except AVERROR (List UInt8) × AVIOContext σ :=
  let s := if s.avail = 0 then ({ s with buffer := [], buf_ptr := 0 } : AVIOContext σ).fill_buffer P else s
  let bs := (s.buffer.drop s.buf_ptr).take size
  let s := { s with buf_ptr := s.buf_ptr + bs.length }
  if bs = [] then s.nothingRead P else (.ok bs, s)

/-! ### Seeking -/

inductive Whence
  | SEEK_SET | SEEK_CUR | SEEK_END
  deriving DecidableEq

theorem fill_progress {s : AVIOContext σ} (h : s.eof_reached = false) :
    (s.fill_buffer P).eof_reached = true ∨ (s.fill_buffer P).eof_reached = false ∧ s.pos < (s.fill_buffer P).pos := by
  have hwith : ∀ (s' : AVIOContext σ) (append : Bool) (len : ℕ), s'.eof_reached = false → s'.pos = s.pos →
      (s'.fillWith P append len).eof_reached = true ∨
      (s'.fillWith P append len).eof_reached = false ∧ s.pos < (s'.fillWith P append len).pos := by
    intro s' append len he hp
    rcases s'.wrapper_cases P len with ⟨e, u, -, hw⟩ | ⟨u, -, hw⟩ | ⟨bs, u, -, hlen, hw⟩
    · exact .inl (by rw [fillWith, hw]; rfl)
    · exact .inl (by rw [fillWith, hw]; rfl)
    · refine .inr ?_
      rw [fillWith, hw]
      exact ⟨he, by dsimp only; omega⟩
  unfold fill_buffer
  rw [if_neg (by rw [h]; exact Bool.false_ne_true)]
  dsimp only
  split_ifs <;> exact hwith _ _ _ h rfl

/-- The loop that reads forward to `offset`. -/
def fillLoop (offset : ℕ) : Loop (AVIOContext σ) (AVIOContext σ) where
  turn := fun s => if s.pos < offset ∧ s.eof_reached = false then .inl (s.fill_buffer P) else .inr s
  rank := fun s => if s.eof_reached then 0 else offset - s.pos + 1
  turn_lt := by
    intro s s' h
    split_ifs at h with hs
    obtain rfl := Sum.inl.inj h
    rcases fill_progress P hs.2 with he | ⟨he, hp⟩
    · simp only [he, hs.2, if_true, Bool.false_eq_true, if_false]
      omega
    · simp only [he, hs.2, Bool.false_eq_true, if_false]
      omega

/-- How far ahead it reads instead of seeking. -/
def short_seek (s : AVIOContext σ) : ℤ :=
  if P.short_seek_get s.url ≤ 0 then s.short_seek_threshold else P.short_seek_get s.url

/-- `avio_seek` to `offset`; `again` is the call of itself. -/
def seekTurn (again : AVIOContext σ → ℕ → Except AVERROR ℕ × AVIOContext σ) (s : AVIOContext σ) (offset : ℕ) :
    Except AVERROR ℕ × AVIOContext σ :=
  let buffer_size := s.buffer.length
  let pos : ℤ := s.pos - buffer_size
  let offset1 := offset - pos
  let buffered := s.direct = false ∨ P.seek.isNone
  if buffered ∧ 0 ≤ offset1 ∧ offset1 ≤ buffer_size then
    (.ok offset, { s with buf_ptr := offset1.toNat, eof_reached := false })
  else if (s.seekable = false ∨ offset1 ≤ buffer_size + s.short_seek P) ∧ 0 ≤ offset1 ∧ buffered then
    let s := (fillLoop P offset).run s
    if s.eof_reached then (.error .EOF, s)
    else (.ok offset, { s with buf_ptr := s.buffer.length - (s.pos - offset), eof_reached := false })
  else
    match P.seek with
    | none => (.error .EPIPE, s)
    | some seek =>
      if offset1 < 0 ∧ -offset1 < (buffer_size / 2 : ℕ) ∧ 0 < offset then
        let pos := (pos - min ((buffer_size / 2 : ℕ) : ℤ) pos).toNat
        match seek s.url pos with
        | (.error e, u) => (.error e, { s with url := u })
        | (.ok _, u) =>
          again (fill_buffer P { s with url := u, buffer := [], buf_ptr := 0, pos := pos, eof_reached := false }) offset
      else
        match seek s.url offset with
        | (.error e, u) => (.error e, { s with url := u })
        | (.ok _, u) =>
          (.ok offset, { s with url := u, buffer := [], buf_ptr := 0, pos := offset, eof_reached := false })

/-- The call of itself makes no other: the buffer starts before `offset` then (`seekTo_eq`). -/
def seekTo (s : AVIOContext σ) (offset : ℕ) : Except AVERROR ℕ × AVIOContext σ :=
  seekTurn P (seekTurn P fun s _ => (.error .BUG, s)) s offset

/-- `avio_seek` with an absolute position. -/
def seekSet (s : AVIOContext σ) (offset : ℤ) : Except AVERROR ℤ × AVIOContext σ :=
  if offset < 0 then (.error .EINVAL, s)
  else
    let r := s.seekTo P offset.toNat
    (r.1.map Int.ofNat, r.2)

def avio_seek (s : AVIOContext σ) (offset : ℤ) : Whence → Except AVERROR ℤ × AVIOContext σ
  | .SEEK_SET => s.seekSet P offset
  | .SEEK_CUR =>
    if offset = 0 then (.ok s.tell, s)
    else if INT64_MAX - s.tell < offset then (.error .EINVAL, s)
    else s.seekSet P (s.tell + offset)
  | .SEEK_END => (.error .EINVAL, s)

/-! ### The buffer and the checksum -/

/-- For a file without seeking, a buffer in which the next `buf_size` bytes stay. -/
def ffio_ensure_seekback (s : AVIOContext σ) (buf_size : ℕ) : AVIOContext σ :=
  let buf_size := buf_size + s.buf_ptr + IO_BUFFER_SIZE
  if buf_size < s.buffer.length ∨ s.seekable then s else { s with buffer_size := buf_size }

def ffio_init_checksum (s : AVIOContext σ) (update : Option (ℕ → List UInt8 → ℕ)) (checksum : ℕ) : AVIOContext σ :=
  { s with checksum := update.map fun f => ⟨f, checksum, s.buf_ptr⟩ }

/-- Without `update_checksum` the call crashes. -/
def ffio_get_checksum (s : AVIOContext σ) : Option ℕ × AVIOContext σ :=
  (s.checksum.map fun c => c.update c.checksum ((s.buffer.take s.buf_ptr).drop c.ptr), { s with checksum := none })

end AVIOContext

/-! ### Files -/

/-- An open file: its contents and `blocksize`. -/
structure FileContext where
  contents : List UInt8
  blocksize : ℕ := INT_MAX.toNat

namespace FileContext

/-- `read` from the position `u`. -/
def file_read (c : FileContext) (u size : ℕ) : Except AVERROR (List UInt8) × ℕ :=
  let bs := (c.contents.drop u).take (min size c.blocksize)
  if bs = [] then (.error .EOF, u) else (.ok bs, u + bs.length)

def file_seek (_ : FileContext) (_u pos : ℕ) : Except AVERROR ℕ × ℕ := (.ok pos, pos)

def callbacks (c : FileContext) : IOCallbacks ℕ where
  read_packet := c.file_read
  seek := some c.file_seek
  size := fun _ => c.contents.length

end FileContext
end LibAV
