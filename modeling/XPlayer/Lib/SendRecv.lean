import Mathlib.Data.List.Basic

/-!
# Send/receive machines

A `SendRecv K P F` is a machine with states `K` that is fed packets `P` and asked for frames `F`, one
at a time: `send` may refuse a packet, `recv` yields a frame or nothing, `eof` announces the end of the
stream and `flush` discards what is under way. How many frames a packet yields, how long they are held
back and what a refusal does are up to the machine; only a bound `pending` on the frames it can yield
without further input is asked for.

`drain` receives until nothing comes, `feed` sends a list of packets and drains after each accepted
one, and `decode` is the full decode of a stream: `feed`, then the end of the stream, then `drain`. -/

/-- A machine that is sent packets and yields frames. -/
structure SendRecv (K P F : Type*) where
  send : K → P → Bool × K
  recv : K → Option F × K
  flush : K → K
  /-- The end of the stream has been announced. -/
  eof : K → K
  /-- A bound on the frames that can be received before the next packet is sent. -/
  pending : K → ℕ
  recv_lt : ∀ k f k', recv k = (some f, k') → pending k' < pending k

namespace SendRecv
variable {K P F : Type*} (C : SendRecv K P F)

/-- Receive at most `n` frames. -/
def drainN : ℕ → K → List F × K
  | 0, k => ([], k)
  | n + 1, k =>
    match C.recv k with
    | (none, k') => ([], k')
    | (some f, k') => (f :: (drainN n k').1, (drainN n k').2)

/-- Receive until nothing comes. -/
def drain (k : K) : List F × K := C.drainN (C.pending k + 1) k

/-- One more turn than `pending` changes nothing. -/
theorem drainN_eq {m n : ℕ} {k : K} (hm : C.pending k < m) (hn : C.pending k < n) :
    C.drainN m k = C.drainN n k := by
  induction m generalizing n k with
  | zero => exact absurd hm (Nat.not_lt_zero _)
  | succ m ih =>
    obtain ⟨n, rfl⟩ : ∃ j, n = j + 1 := ⟨n - 1, by omega⟩
    simp only [drainN]
    rcases hr : C.recv k with ⟨_ | f, k'⟩
    · rfl
    · have hlt := C.recv_lt k f k' hr
      simp only [ih (show C.pending k' < m by omega) (show C.pending k' < n by omega)]

theorem drain_none {k k' : K} (h : C.recv k = (none, k')) : C.drain k = ([], k') := by
  simp only [drain, drainN, h]

theorem drain_some {k k' : K} {f : F} (h : C.recv k = (some f, k')) :
    C.drain k = (f :: (C.drain k').1, (C.drain k').2) := by
  have hlt := C.recv_lt k f k' h
  have he : C.drainN (C.pending k) k' = C.drain k' := C.drainN_eq hlt (Nat.lt_succ_self _)
  simp only [drain, drainN, h]
  rw [he]; rfl

/-- The frames and the state after one packet: sent, and drained if it was accepted. -/
def feedOne (k : K) (p : P) : List F × K :=
  match C.send k p with
  | (true, k') => C.drain k'
  | (false, k') => ([], k')

/-- Send the packets in order, draining after each accepted one. -/
def feed : K → List P → List F × K
  | k, [] => ([], k)
  | k, p :: ps => ((C.feedOne k p).1 ++ (feed (C.feedOne k p).2 ps).1, (feed (C.feedOne k p).2 ps).2)

/-- The frames held back until the end of the stream is announced. -/
def heldBack (k : K) : List F := (C.drain (C.eof k)).1

/-- The full decode of a stream: every packet, then the frames held back. -/
def decode (k : K) (ps : List P) : List F := (C.feed k ps).1 ++ C.heldBack (C.feed k ps).2

@[simp] theorem feed_nil (k : K) : C.feed k [] = ([], k) := rfl

theorem feedOne_refused {k k' : K} {p : P} (h : C.send k p = (false, k')) : C.feedOne k p = ([], k') := by
  simp only [feedOne, h]

theorem feedOne_accepted {k k' : K} {p : P} (h : C.send k p = (true, k')) :
    C.feedOne k p = C.drain k' := by
  simp only [feedOne, h]

/-! ### Machines from machines -/

section
variable {K' P' F' : Type*}

/-- The same machine with other packets and frames. -/
def via (g : P' → P) (h : F → F') : SendRecv K P' F' where
  send k p := C.send k (g p)
  recv k := ((C.recv k).1.map h, (C.recv k).2)
  flush := C.flush
  eof := C.eof
  pending := C.pending
  recv_lt k f k' hr := by
    rcases hk : C.recv k with ⟨_ | f', k''⟩ <;> rw [hk] at hr <;> cases hr
    exact C.recv_lt k f' k'' hk

/-- Either of two machines. -/
def sum (C' : SendRecv K' P F) : SendRecv (K ⊕ K') P F where
  send
    | .inl k, p => ((C.send k p).1, .inl (C.send k p).2)
    | .inr k, p => ((C'.send k p).1, .inr (C'.send k p).2)
  recv
    | .inl k => ((C.recv k).1, .inl (C.recv k).2)
    | .inr k => ((C'.recv k).1, .inr (C'.recv k).2)
  flush := Sum.map C.flush C'.flush
  eof := Sum.map C.eof C'.eof
  pending := Sum.elim C.pending C'.pending
  recv_lt := by
    rintro (k | k) f k' h
    · rcases hk : C.recv k with ⟨_ | g, k''⟩ <;> simp only [hk] at h <;> cases h
      exact C.recv_lt k f k'' hk
    · rcases hk : C'.recv k with ⟨_ | g, k''⟩ <;> simp only [hk] at h <;> cases h
      exact C'.recv_lt k f k'' hk

/-- `e` maps the states of `C` to those of `M`, where `M` works as `C` does up to `g` and `h`. -/
structure Hom (M : SendRecv K' P' F') (C : SendRecv K P F) (e : K → K') (g : P' → P) (h : F → F') : Prop where
  send : ∀ k p, M.send (e k) p = ((C.send k (g p)).1, e (C.send k (g p)).2)
  recv : ∀ k, M.recv (e k) = ((C.recv k).1.map h, e (C.recv k).2)

namespace Hom
variable {C} {M : SendRecv K' P' F'} {e : K → K'} {g : P' → P} {h : F → F'}

theorem drain (H : Hom M C e g h) (k : K) : M.drain (e k) = ((C.drain k).1.map h, e (C.drain k).2) := by
  induction hn : C.pending k using Nat.strongRecOn generalizing k with
  | ind n ih =>
    have hr := H.recv k
    rcases hk : C.recv k with ⟨_ | f, k'⟩ <;> rw [hk] at hr
    · rw [M.drain_none hr, C.drain_none hk]
      rfl
    · rw [M.drain_some hr, C.drain_some hk, ih _ (hn ▸ C.recv_lt k f k' hk) k' rfl]
      rfl

theorem feed (H : Hom M C e g h) (k : K) (ps : List P') :
    M.feed (e k) ps = ((C.feed k (ps.map g)).1.map h, e (C.feed k (ps.map g)).2) := by
  have hone : ∀ k p, M.feedOne (e k) p = ((C.feedOne k (g p)).1.map h, e (C.feedOne k (g p)).2) := by
    intro k p
    have hs := H.send k p
    rcases hk : C.send k (g p) with ⟨_ | _, k'⟩ <;> rw [hk] at hs
    · rw [M.feedOne_refused hs, C.feedOne_refused hk]
      rfl
    · rw [M.feedOne_accepted hs, C.feedOne_accepted hk, H.drain]
  induction ps generalizing k with
  | nil => rfl
  | cons p ps ih => simp only [SendRecv.feed, hone, ih, List.map_cons, List.map_append]

end Hom

theorem via_hom (g : P' → P) (h : F → F') : Hom (C.via g h) C id g h := ⟨fun _ _ => rfl, fun _ => rfl⟩

theorem sum_inl (C' : SendRecv K' P F) : Hom (C.sum C') C .inl id id :=
  ⟨fun _ _ => rfl, fun k => by rw [Option.map_id]; rfl⟩

theorem sum_inr (C' : SendRecv K' P F) : Hom (C.sum C') C' .inr id id :=
  ⟨fun _ _ => rfl, fun k => by rw [Option.map_id]; rfl⟩

end

/-! ### Machines that buffer their output -/

/-- `C` keeps its output in a list, `out`: an accepted packet appends to it, nothing is accepted while it
is not empty, `recv` takes the first frame, and `flush` empties it. -/
structure Buffering (C : SendRecv K P F) where
  out : K → List F
  accepted : ∀ k p, (C.send k p).1 = true → ∃ fs, out (C.send k p).2 = out k ++ fs
  pending : ∀ k p, out k ≠ [] → (C.send k p).1 = false
  refused : ∀ k p, (C.send k p).1 = false → out (C.send k p).2 = out k
  recv : ∀ k, (C.recv k).1 = (out k).head? ∧ out (C.recv k).2 = (out k).tail
  flush : ∀ k, out (C.flush k) = []

namespace Buffering
variable {C} (B : C.Buffering)

theorem recv_none {k : K} (h : (C.recv k).1 = none) : B.out (C.recv k).2 = [] := by
  obtain ⟨h1, h2⟩ := B.recv k
  rw [h, eq_comm, List.head?_eq_none_iff] at h1
  rw [h2, h1]
  rfl

/-- One `recv` collects the output of a packet that has at most one frame. -/
theorem recv_le_one {k : K} (h : (B.out k).length ≤ 1) : B.out (C.recv k).2 = [] := by
  rw [(B.recv k).2, ← List.length_eq_zero_iff, List.length_tail]
  omega

end Buffering

end SendRecv
