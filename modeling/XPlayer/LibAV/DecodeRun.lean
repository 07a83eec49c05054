import XPlayer.LibAV.Decode

/-!
# The decoding API decodes packet by packet

`decodeAll` is what a codec makes of a list of packets that are decoded one after the other, each to its
end, and `drained` what it still gives at the end of the stream. The API splits this work up in whatever
way it is called: it keeps a packet in the filter, another one half decoded, and a frame in advance.

`todo` is what the API has still to deliver if it is only asked to receive, and the state of the decoder
after it. Receiving takes the first of it; sending a packet that is accepted appends what the packet decodes
to, and a packet that is refused changes nothing. So over every sequence of calls what was delivered and
what is to come is `decodeAll` of the packets that were taken (`session_decodes`).
-/

namespace LibAV
open XPlayer (AVMediaType)
variable {D S : Type}

/-- What the API delivers: frames, and the errors of the decoder. -/
abbrev Out (S : Type) := Except AVERROR (AVFrame S)

/-- What a return value delivers; the codes for `not now` deliver nothing. -/
def delivered {α : Type} (val : α → List (Out S)) : Except AVERROR α → List (Out S)
  | .ok x => val x
  | .error .EAGAIN | .error .EOF | .error .EINVAL => []
  | .error e => [.error e]

def ofFrame (f : AVFrame S) : List (Out S) := [.ok f]

def ofFrame? (f : Option (AVFrame S)) : List (Out S) := f.toList.map .ok

/-! ### Decoding packet by packet -/

section
variable (C : AVCodec D S)

/-- A packet is decoded until nothing is left of it. -/
def packetLoop : Loop (Core D × AVPacket) (Core D) where
  turn s :=
    match decodeCall C s.1 (some s.2) with
    | (.error _, c) => .inr c
    | (.ok n _ _, c) =>
      match restPkt n (some s.2) c with
      | (some p, c') => .inl (c', p)
      | (none, c') => .inr c'
  rank s := C.left s.1.dec s.2.size
  turn_lt := by
    rintro ⟨c, p⟩ s' h
    rcases hd : decodeCall C c (some p) with ⟨e | ⟨n, f, actual⟩, c'⟩ <;> simp only [hd] at h
    · cases h
    · unfold restPkt at h
      by_cases hn : n < p.size
      · simp only [if_pos hn] at h
        cases h
        obtain ⟨n₀, f₀, hdec, -, -, hv, ha⟩ := decodeCall_ok hd
        have hna : C.type ≠ .video := fun ht => by
          rw [hv ht] at hn
          exact absurd hn (Nat.lt_irrefl _)
        rw [ha hna] at hn ⊢
        rw [AVPacket.size_advance]
        exact C.advances _ _ _ _ _ _ hna hdec hn
      · simp only [if_neg hn] at h
        cases h

def packetOut (s : Core D × AVPacket) : List (Out S) :=
  match decodeCall C s.1 (some s.2) with
  | (.error e, _) => [.error (.other e)]
  | (.ok _ f _, _) => ofFrame? f

/-- The empty packet is decoded until there is no frame, or too many errors; the number counts them. -/
def drainLoop : Loop (Core D × ℕ) (Core D) where
  turn s :=
    match decodeCall C s.1 none with
    | (.error _, c) => if s.2 ≥ C.nb_errors_max then .inr c else .inl (c, s.2 + 1)
    | (.ok _ _ actual, c) => if actual then .inl (c, s.2) else .inr c
  rank s := (C.nb_errors_max + 1 - s.2) * (C.budget + 1) + C.left s.1.dec 0
  turn_lt := by
    rintro ⟨c, nb⟩ s' h
    rcases hd : decodeCall C c none with ⟨e | ⟨n, f, actual⟩, c'⟩ <;> simp only [hd] at h
    · split_ifs at h with hnb
      cases h
      have hb := C.left_le c'.dec 0
      have hm : C.nb_errors_max + 1 - nb = (C.nb_errors_max + 1 - (nb + 1)) + 1 := by omega
      dsimp only
      rw [hm, Nat.add_mul]
      omega
    · split_ifs at h with hact
      cases h
      obtain ⟨n₀, f₀, hdec, rfl, -⟩ := decodeCall_ok hd
      obtain ⟨g, rfl⟩ := Option.isSome_iff_exists.mp hact
      exact Nat.add_lt_add_left (C.drains _ _ _ _ _ hdec) _

def drainOut (s : Core D × ℕ) : List (Out S) :=
  match decodeCall C s.1 none with
  | (.error e, _) => if s.2 ≥ C.nb_errors_max then [.error .BUG] else [.error (.other e)]
  | (.ok _ f _, _) => ofFrame? f

/-- The rest of a packet, decoded to its end. -/
def decodeFrom (c : Core D) (p : AVPacket) : List (Out S) × Core D :=
  ((packetLoop C).trace (packetOut C) (c, p), (packetLoop C).run (c, p))

/-- A packet, decoded to its end. -/
def decodePacket (c : Core D) (p : AVPacket) : List (Out S) × Core D := decodeFrom C (c.load p) p

/-- Packets, decoded one after the other. -/
def decodeAll (c : Core D) : List AVPacket → List (Out S) × Core D
  | [] => ([], c)
  | p :: ps => ((decodePacket C c p).1 ++ (decodeAll (decodePacket C c p).2 ps).1,
      (decodeAll (decodePacket C c p).2 ps).2)

/-- The end of the stream, after `nb` errors. -/
def drained (c : Core D) (nb : ℕ) : List (Out S) × Core D :=
  if C.delays then ((drainLoop C).trace (drainOut C) (c, nb), (drainLoop C).run (c, nb)) else ([], c)

end

variable {C : AVCodec D S}

theorem decodeAll_append (c : Core D) (ps qs : List AVPacket) :
    decodeAll C c (ps ++ qs) = ((decodeAll C c ps).1 ++ (decodeAll C (decodeAll C c ps).2 qs).1,
      (decodeAll C (decodeAll C c ps).2 qs).2) := by
  induction ps generalizing c with
  | nil => rfl
  | cons p ps ih => simp [decodeAll, ih]

theorem decodeAll_concat (c : Core D) (ps : List AVPacket) (p : AVPacket) :
    decodeAll C c (ps ++ [p]) = ((decodeAll C c ps).1 ++ (decodePacket C (decodeAll C c ps).2 p).1,
      (decodePacket C (decodeAll C c ps).2 p).2) := by
  simp [decodeAll_append, decodeAll]

section
variable {c c' : Core D} {p : AVPacket} {e n nb : ℕ} {f : Option (AVFrame S)} {actual : Bool}

theorem decodeFrom_error (hd : decodeCall C c (some p) = (.error e, c')) :
    decodeFrom C c p = ([.error (.other e)], c') := by
  have ht : (packetLoop C).turn (c, p) = .inr c' := by simp only [packetLoop, hd]
  rw [decodeFrom, Loop.trace_stop _ _ ht, Loop.run_stop _ ht, packetOut, hd]

theorem decodeFrom_ok (hd : decodeCall C c (some p) = (.ok n f actual, c')) :
    decodeFrom C c p =
      match restPkt n (some p) c' with
      | (some q, d) => (ofFrame? f ++ (decodeFrom C d q).1, (decodeFrom C d q).2)
      | (none, d) => (ofFrame? f, d) := by
  rcases hr : restPkt n (some p) c' with ⟨_ | q, d⟩
  · have ht : (packetLoop C).turn (c, p) = .inr d := by simp only [packetLoop, hd, hr]
    rw [decodeFrom, Loop.trace_stop _ _ ht, Loop.run_stop _ ht, packetOut, hd]
  · have ht : (packetLoop C).turn (c, p) = .inl (d, q) := by simp only [packetLoop, hd, hr]
    rw [decodeFrom, Loop.trace_turn _ _ ht, Loop.run_turn _ ht, packetOut, hd]
    rfl

theorem drained_error (hdel : C.delays = true) (hd : decodeCall C c none = (.error e, c')) :
    drained C c nb =
      if nb ≥ C.nb_errors_max then ([.error .BUG], c')
      else (.error (.other e) :: (drained C c' (nb + 1)).1, (drained C c' (nb + 1)).2) := by
  unfold drained
  rw [if_pos hdel, if_pos hdel]
  by_cases hnb : nb ≥ C.nb_errors_max
  · have ht : (drainLoop C).turn (c, nb) = .inr c' := by simp only [drainLoop, hd, if_pos hnb]
    rw [if_pos hnb, Loop.trace_stop _ _ ht, Loop.run_stop _ ht]
    simp only [drainOut, hd, if_pos hnb]
  · have ht : (drainLoop C).turn (c, nb) = .inl (c', nb + 1) := by simp only [drainLoop, hd, if_neg hnb]
    rw [if_neg hnb, Loop.trace_turn _ _ ht, Loop.run_turn _ ht]
    simp only [drainOut, hd, if_neg hnb, List.cons_append, List.nil_append]

theorem drained_ok (hdel : C.delays = true) (hd : decodeCall C c none = (.ok n f actual, c')) :
    drained C c nb =
      if actual then (ofFrame? f ++ (drained C c' nb).1, (drained C c' nb).2) else (ofFrame? f, c') := by
  unfold drained
  rw [if_pos hdel, if_pos hdel]
  by_cases ha : actual = true
  · have ht : (drainLoop C).turn (c, nb) = .inl (c', nb) := by simp only [drainLoop, hd, if_pos ha]
    rw [if_pos ha, Loop.trace_turn _ _ ht, Loop.run_turn _ ht]
    simp only [drainOut, hd]
  · have ht : (drainLoop C).turn (c, nb) = .inr c' := by simp only [drainLoop, hd, if_neg ha]
    rw [if_neg ha, Loop.trace_stop _ _ ht, Loop.run_stop _ ht]
    simp only [drainOut, hd]

end

/-! ### What is still to come -/

namespace AVCodecContext
variable (C) (a : AVCodecContext D S)

/-- The rest of `ds.in_pkt`. -/
def restOut : List (Out S) × Core D :=
  match a.in_pkt with
  | some p => decodeFrom C a.core p
  | none => ([], a.core)

/-- What follows it: the packet in the filter, or the end of the stream. -/
def nextOut (c : Core D) : List (Out S) × Core D :=
  if a.bsf.eof then drained C c a.nb_draining_errors
  else
    match a.bsf.buffer_pkt with
    | some p => decodePacket C c p
    | none => ([], c)

/-- What the decoder has still to give, and its state after that. -/
def pending : List (Out S) × Core D :=
  if a.draining_done then ([], a.core)
  else ((restOut C a).1 ++ (nextOut C a (restOut C a).2).1, (nextOut C a (restOut C a).2).2)

/-- The same with the frame in `buffer_frame`. -/
def todo : List (Out S) := ofFrame? a.buffer_frame ++ (pending C a).1

/-- The flags agree: draining begins when the end was announced and nothing is half decoded. -/
structure Ok : Prop where
  eof : a.draining = true → a.bsf.eof = true
  in_pkt : a.draining = true → a.in_pkt = none
  done : a.draining_done = true → a.draining = true
  errors : a.draining = false → a.nb_draining_errors = 0

/-- Nothing is left, and the end is not announced. -/
structure Idle : Prop where
  bsf : a.bsf = {}
  in_pkt : a.in_pkt = none
  draining : a.draining = false
  done : a.draining_done = false

/-- `a` gives `os` and goes on as `a'`. -/
structure Gives (os : List (Out S)) (a' : AVCodecContext D S) : Prop where
  pending : pending C a = (os ++ (pending C a').1, (pending C a').2)
  ok : a'.Ok
  frame : a'.buffer_frame = a.buffer_frame
  eof : a'.bsf.eof = a.bsf.eof
  /-- After the end was announced, nothing is taken out of the filter. -/
  held : a.bsf.eof = true → a'.bsf = a.bsf
  /-- What is given comes from `in_pkt`, unless the packet in the filter is taken out. -/
  kept : a.bsf.eof = false → a'.bsf.buffer_pkt = none ∨
    a'.bsf = a.bsf ∧ restOut C a = (os ++ (restOut C a').1, (restOut C a').2)

variable {C a} {a' : AVCodecContext D S}

theorem pending_done (h : a.draining_done = true) : pending C a = ([], a.core) := if_pos h

theorem pending_eq (h : a.draining_done = false) : pending C a =
    ((restOut C a).1 ++ (nextOut C a (restOut C a).2).1, (nextOut C a (restOut C a).2).2) :=
  if_neg (by rw [h]; exact Bool.false_ne_true)

/-- A call on a packet gives the next part of its output. -/
theorem gives_packet {p : AVPacket} {r : Except AVERROR (Option (AVFrame S))} (hok : a.Ok)
    (hp : a.in_pkt = some p) (h : decodePkt C a = (r, a')) : a.Gives C (delivered ofFrame? r) a' := by
  have hdr : a.draining = false := by
    by_contra hn
    rw [hok.in_pkt (by simpa using hn)] at hp
    cases hp
  have hdone : a.draining_done = false := by
    by_contra hn
    rw [hok.done (by simpa using hn)] at hdr
    cases hdr
  have hrest : restOut C a = decodeFrom C a.core p := by rw [restOut, hp]
  have hpend : pending C a = ((decodeFrom C a.core p).1 ++ (nextOut C a (decodeFrom C a.core p).2).1,
      (nextOut C a (decodeFrom C a.core p).2).2) := by rw [pending_eq hdone, hrest]
  unfold decodePkt at h
  rw [hp] at h
  rcases hd : decodeCall C a.core (some p) with ⟨e | ⟨n, f, actual⟩, c⟩ <;> rw [hd] at h
  · simp only [hdr, Bool.false_eq_true, if_false] at h
    cases h
    rw [decodeFrom_error hd] at hpend hrest
    refine ⟨?_, ⟨fun hn => ?_, fun _ => rfl, fun hn => ?_, fun _ => hok.errors hdr⟩, rfl, rfl, fun _ => rfl,
      fun _ => .inr ⟨rfl, hrest⟩⟩
    · rw [hpend, pending_eq (by exact hdone)]
      rfl
    · cases hn
    · exact absurd (hdone.symm.trans hn) Bool.false_ne_true
  · simp only [hdr, Bool.false_and, Bool.or_false] at h
    cases h
    rw [decodeFrom_ok hd] at hpend hrest
    refine ⟨?_, ⟨fun hn => ?_, fun hn => ?_, fun hn => ?_, fun _ => hok.errors hdr⟩, rfl, rfl, fun _ => rfl,
      fun _ => .inr ⟨rfl, ?_⟩⟩
    · rw [hpend, pending_eq (by exact hdone)]
      rcases restPkt n (some p) c with ⟨_ | q, d⟩
      · rfl
      · simp only [delivered, restOut, List.append_assoc]
        rfl
    · cases hn
    · cases hn
    · exact absurd (hdone.symm.trans hn) Bool.false_ne_true
    · rw [hrest]
      rcases restPkt n (some p) c with ⟨_ | q, d⟩
      · exact congrArg (·, d) (List.append_nil _).symm
      · rfl

/-- A call with the empty packet gives the next part of what was held back. -/
theorem gives_drain {r : Except AVERROR (Option (AVFrame S))} (hdel : C.delays = true) (hp : a.in_pkt = none)
    (hdr : a.draining = true) (he : a.bsf.eof = true) (hdone : a.draining_done = false)
    (h : decodePkt C a = (r, a')) : a.Gives C (delivered ofFrame? r) a' := by
  have hpend : pending C a = drained C a.core a.nb_draining_errors := by
    rw [pending_eq hdone, restOut, hp]
    simp only [nextOut, he, if_true, List.nil_append]
  unfold decodePkt at h
  rw [hp] at h
  rcases hd : decodeCall C a.core none with ⟨e | ⟨n, f, actual⟩, c⟩ <;> rw [hd] at h
  · simp only [hdr, if_true] at h
    rw [drained_error hdel hd] at hpend
    split_ifs at h hpend with hnb
    · cases h
      refine ⟨?_, ⟨fun _ => he, fun _ => rfl, fun _ => rfl, fun hn => by cases hn⟩, rfl, rfl, fun _ => rfl,
        fun hn => absurd (he.symm.trans hn) Bool.noConfusion⟩
      rw [hpend, pending_done rfl]
      rfl
    · cases h
      refine ⟨?_, ⟨fun _ => he, fun _ => rfl, fun _ => rfl, fun hn => by cases hn⟩, rfl, rfl, fun _ => rfl,
        fun hn => absurd (he.symm.trans hn) Bool.noConfusion⟩
      rw [hpend, pending_eq (by exact hdone)]
      simp only [restOut, nextOut, he, if_true]
      rfl
  · simp only [hdr, hdone, Bool.false_or, Bool.true_and] at h
    rw [drained_ok hdel hd] at hpend
    cases h
    refine ⟨?_, ⟨fun _ => he, fun _ => rfl, fun _ => rfl, fun hn => by cases hn⟩, rfl, rfl, fun _ => rfl,
        fun hn => absurd (he.symm.trans hn) Bool.noConfusion⟩
    split_ifs at hpend with ha
    · rw [hpend, pending_eq (by simp [ha])]
      simp only [restOut, restPkt, nextOut, he, if_true]
      rfl
    · rw [hpend, pending_done (by simp [ha])]
      simp only [restPkt, List.append_nil]
      rfl

/-- What an error code says about the state that is left. -/
structure Says {α : Type} (r : Except AVERROR α) (a' : AVCodecContext D S) : Prop where
  again : r = .error .EAGAIN → a'.Idle
  eof : r = .error .EOF → a'.draining = true ∧ AVCodecContext.pending C a' = ([], a'.core)
  valid : r ≠ .error .EINVAL
  in_pkt : ∀ e, r = .error e → a'.in_pkt = none

theorem Says.of_ne {α : Type} {r : Except AVERROR α} (h1 : r ≠ .error .EAGAIN) (h2 : r ≠ .error .EOF)
    (h3 : r ≠ .error .EINVAL) (h4 : ∀ e, r = .error e → a'.in_pkt = none) : Says (C := C) r a' :=
  ⟨fun h => absurd h h1, fun h => absurd h h2, h3, h4⟩

theorem Says.eof_of {α : Type} (hdr : a'.draining = true) (hp : AVCodecContext.pending C a' = ([], a'.core))
    (hi : a'.in_pkt = none) : Says (C := C) (α := α) (.error .EOF) a' := by
  refine ⟨fun h => ?_, fun _ => ⟨hdr, hp⟩, fun h => ?_, fun _ _ => hi⟩ <;> cases h

theorem Gives.refl (hok : a.Ok) : a.Gives C [] a := ⟨rfl, hok, rfl, rfl, fun _ => rfl, fun _ => .inr ⟨rfl, rfl⟩⟩

theorem Gives.trans {b : AVCodecContext D S} {os os' : List (Out S)} (h : a.Gives C os b) (h' : b.Gives C os' a') :
    a.Gives C (os ++ os') a' := by
  refine ⟨by rw [h.pending, h'.pending, List.append_assoc], h'.ok, h'.frame.trans h.frame, h'.eof.trans h.eof,
    fun he => (h'.held (h.eof.trans he)).trans (h.held he), fun he => ?_⟩
  rcases h'.kept (h.eof.trans he) with hn | ⟨hb, hr⟩
  · exact .inl hn
  · rcases h.kept he with hn | ⟨hb', hr'⟩
    · exact .inl (by rw [hb]; exact hn)
    · exact .inr ⟨hb.trans hb', by rw [hr', hr, List.append_assoc]⟩

theorem Gives.of_eq {b : AVCodecContext D S} {os : List (Out S)} (h : b.Gives C os a')
    (hp : AVCodecContext.pending C a = AVCodecContext.pending C b) (hf : b.buffer_frame = a.buffer_frame)
    (he : b.bsf.eof = a.bsf.eof) (hh : a.bsf.eof = true → b.bsf = a.bsf)
    (hk : a.bsf.eof = false → b.bsf.buffer_pkt = none) : a.Gives C os a' := by
  refine ⟨hp.trans h.pending, h.ok, h.frame.trans hf, h.eof.trans he,
    fun hn => (h.held (he.trans hn)).trans (hh hn), fun hn => .inl ?_⟩
  rcases h.kept (he.trans hn) with hb | ⟨hb, -⟩
  · exact hb
  · rw [hb]
    exact hk hn

/-- The decoder itself returns none of the codes of the API. -/
theorem decodePkt_says {r : Except AVERROR (Option (AVFrame S))} (h : decodePkt C a = (r, a')) :
    Says (C := C) r a' := by
  unfold decodePkt at h
  rcases hd : decodeCall C a.core a.in_pkt with ⟨e | ⟨n, f, actual⟩, c⟩ <;> rw [hd] at h
  · dsimp only at h
    split_ifs at h <;> cases h <;> refine .of_ne ?_ ?_ ?_ fun _ _ => rfl <;> rintro ⟨⟩
  · cases h
    refine .of_ne ?_ ?_ ?_ fun e he => absurd he ?_ <;> rintro ⟨⟩

theorem rest_gives {r : Except AVERROR (Option (AVFrame S))} (hok : a.Ok)
    (hp : a.in_pkt = none → a.draining = true) (h : decodeRest C a = (r, a')) :
    a.Gives C (delivered ofFrame? r) a' ∧ Says (C := C) r a' := by
  unfold decodeRest at h
  split_ifs at h with hdone hdel
  · cases h
    exact ⟨.refl hok, .eof_of (hok.done hdone) (pending_done hdone) (hok.in_pkt (hok.done hdone))⟩
  · cases h
    obtain ⟨hn, hd⟩ := hdel
    rw [Option.isNone_iff_eq_none] at hn
    refine ⟨.refl hok, .eof_of (hp hn) ?_ hn⟩
    rw [pending_eq (by simpa using hdone), restOut, hn]
    simp [nextOut, hok.eof (hp hn), drained, hd]
  · refine ⟨?_, decodePkt_says h⟩
    rcases hi : a.in_pkt with _ | p
    · have hdr := hp hi
      refine gives_drain ?_ hi hdr (hok.eof hdr) (by simpa using hdone) h
      by_contra hd
      exact hdel ⟨by rw [hi]; rfl, hd⟩
    · exact gives_packet hok hi h

/-- One turn of `decode_simple_receive_frame`. -/
theorem internal_gives {r : Except AVERROR (Option (AVFrame S))} (hok : a.Ok)
    (h : decode_simple_internal C a = (r, a')) : a.Gives C (delivered ofFrame? r) a' ∧ Says (C := C) r a' := by
  unfold decode_simple_internal at h
  by_cases hg : a.in_pkt.isNone ∧ ¬ a.draining
  · rw [if_pos hg] at h
    obtain ⟨hp, hdr⟩ := hg
    rw [Option.isNone_iff_eq_none] at hp
    have hdone : a.draining_done = false := by
      by_contra hd
      exact hdr (hok.done (by simpa using hd))
    rw [ff_decode_get_packet, if_neg hdr] at h
    unfold AVBSFContext.av_bsf_receive_packet at h
    by_cases he : a.bsf.eof = true
    · -- the end was announced: draining begins
      simp only [if_pos he] at h
      have hb : Ok { a with draining := true } := ⟨fun _ => he, fun _ => hp, fun _ => rfl, fun hn => by cases hn⟩
      obtain ⟨hg, hs⟩ := rest_gives hb (fun _ => rfl) h
      refine ⟨hg.of_eq ?_ rfl rfl (fun _ => rfl) fun hn => absurd (he.symm.trans hn) Bool.noConfusion, hs⟩
      rw [pending_eq hdone, pending_eq (by exact hdone)]
      simp only [restOut, nextOut, he, if_true]
    · simp only [if_neg he] at h
      rcases hb : a.bsf.buffer_pkt with _ | q
      · rw [hb] at h
        cases h
        refine ⟨.refl hok, fun _ => ⟨AVBSFContext.eq_empty hb (by simpa using he), hp, by simpa using hdr, hdone⟩, fun h => ?_,
          fun h => ?_, fun _ _ => hp⟩ <;> cases h
      · rw [hb] at h
        have hl : Ok { a with core := a.core.load q, bsf := { a.bsf with buffer_pkt := none }, in_pkt := some q } :=
          ⟨fun hn => absurd hn hdr, fun hn => absurd hn hdr, hok.done, hok.errors⟩
        obtain ⟨hg, hs⟩ := rest_gives hl (fun hn => by cases hn) h
        refine ⟨hg.of_eq ?_ rfl rfl (fun hn => absurd hn he) fun _ => rfl, hs⟩
        rw [pending_eq hdone, pending_eq (by exact hdone)]
        simp only [restOut, hp, nextOut, hb, if_neg he, List.nil_append, List.append_nil]
        rfl
  · rw [if_neg hg] at h
    refine rest_gives hok (fun hn => ?_) h
    by_contra hdr
    exact hg ⟨by rw [hn]; rfl, hdr⟩

/-- The whole loop: it gives one frame or error, or says why there is none. -/
theorem receive_gives (hok : a.Ok) :
    a.Gives C (delivered ofFrame (decode_receive_frame_internal C a).1) (decode_receive_frame_internal C a).2 ∧
      Says (C := C) (decode_receive_frame_internal C a).1 (decode_receive_frame_internal C a).2 := by
  have hloop : a.Gives C (delivered ofFrame (decode_simple_receive_frame C a).1)
      (decode_simple_receive_frame C a).2 ∧
        Says (C := C) (decode_simple_receive_frame C a).1 (decode_simple_receive_frame C a).2 := by
    refine (receiveLoop C).run_induct (P := fun a r => a.Ok → a.Gives C (delivered ofFrame r.1) r.2 ∧
      Says (C := C) r.1 r.2) ?_ ?_ a hok
    · intro a r hturn hok
      rcases hi : decode_simple_internal C a with ⟨e | _ | f, b⟩ <;> simp only [receiveLoop, hi] at hturn <;>
        cases hturn <;> obtain ⟨hg, hs⟩ := internal_gives hok hi
      · refine ⟨?_, fun h => hs.again ?_, fun h => hs.eof ?_, fun h => hs.valid ?_, fun _ _ => hs.in_pkt e rfl⟩
        · cases e <;> exact hg
        · cases h; rfl
        · cases h; rfl
        · cases h; rfl
      · refine ⟨hg, .of_ne ?_ ?_ ?_ fun e he => absurd he ?_⟩ <;> rintro ⟨⟩
    · intro a b hturn ih hok
      rcases hi : decode_simple_internal C a with ⟨e | _ | f, b⟩ <;> simp only [receiveLoop, hi] at hturn <;>
        cases hturn
      obtain ⟨hg, -⟩ := internal_gives hok hi
      obtain ⟨hg', hs'⟩ := ih hg.ok
      exact ⟨hg.trans hg', hs'⟩
  unfold decode_receive_frame_internal
  generalize decode_simple_receive_frame C a = ra at hloop
  obtain ⟨r, b⟩ := ra
  obtain ⟨hg, hs⟩ := hloop
  split
  · rename_i b' h
    cases h
    -- the end: `draining_done` is set, and nothing was pending any more
    obtain ⟨hdr, hpend⟩ := hs.eof rfl
    refine ⟨⟨?_, ⟨hg.ok.eof, hg.ok.in_pkt, fun _ => hdr, hg.ok.errors⟩, hg.frame, hg.eof, hg.held, hg.kept⟩,
      .eof_of hdr (pending_done rfl) (hs.in_pkt _ rfl)⟩
    rw [hg.pending, hpend, pending_done (a := { b with draining_done := true }) rfl]
  · exact ⟨hg, hs⟩

end AVCodecContext

end LibAV
