import XPlayer.LibAV.DecodeRun

/-!
# Sessions of the decoding API

Any sequence of `avcodec_send_packet`, `avcodec_receive_frame` and `avcodec_flush_buffers` on an opened
context. A `Session` records, since the last flush, what was delivered and which packets were accepted.
-/

namespace LibAV
open AVCodecContext
variable {D S : Type}

inductive Call
  | send (avpkt : Option AVPacket)
  | receive
  | flush
  deriving DecidableEq

namespace AVCodecContext

/-- `avcodec_send_packet` takes `avpkt`. -/
def Accepts (a : AVCodecContext D S) (p : AVPacket) : Prop :=
  a.draining = false ∧ p.size ≠ 0 ∧ a.bsf.eof = false ∧ a.bsf.buffer_pkt = none

theorem Ok.not_done {a : AVCodecContext D S} (h : a.Ok) (he : a.bsf.eof = false) : a.draining_done = false := by
  by_contra hd
  have := h.eof (h.done (by simpa using hd))
  rw [he] at this
  cases this

/-- Without a packet in the filter only the one that is half decoded is to come. -/
theorem Ok.pending_eq_rest {C : AVCodec D S} {a : AVCodecContext D S} (h : a.Ok) (he : a.bsf.eof = false)
    (hb : a.bsf.buffer_pkt = none) : pending C a = restOut C a := by
  rw [pending_eq (h.not_done he)]
  simp [nextOut, he, hb]

instance (a : AVCodecContext D S) (p : AVPacket) : Decidable (a.Accepts p) :=
  inferInstanceAs (Decidable (_ ∧ _ ∧ _ ∧ _))

section
variable (C : AVCodec D S) {a : AVCodecContext D S} {p : AVPacket}

theorem send_accepted (h : a.Accepts p) : avcodec_send_packet C a (some p) =
    decodeAhead C { a with bsf := { a.bsf with buffer_pkt := some p } } := by
  obtain ⟨hdr, hp, he, hb⟩ := h
  simp [avcodec_send_packet, hdr, hp, AVBSFContext.av_bsf_send_packet, he, hb]

/-- A packet that is refused leaves the context as it is. -/
theorem send_refused (h : ¬ a.Accepts p) : ∃ e, avcodec_send_packet C a (some p) = (.error e, a) ∧
    (e = .EOF ∧ a.draining = true ∨ e = .EINVAL ∨
      e = .EAGAIN ∧ a.draining = false ∧ p.size ≠ 0 ∧ a.bsf.eof = false ∧ a.bsf.buffer_pkt ≠ none) := by
  unfold avcodec_send_packet
  split_ifs with hdr hp
  · exact ⟨_, rfl, .inl ⟨rfl, hdr⟩⟩
  · exact ⟨_, rfl, .inr (.inl rfl)⟩
  · unfold AVBSFContext.av_bsf_send_packet
    by_cases he : a.bsf.eof = true
    · exact ⟨.EINVAL, by simp only [if_pos he], .inr (.inl rfl)⟩
    · rcases hb : a.bsf.buffer_pkt with _ | q
      · exact absurd ⟨by simpa using hdr, by simpa using hp, by simpa using he, hb⟩ h
      · refine ⟨.EAGAIN, ?_, .inr (.inr ⟨rfl, by simpa using hdr, by simpa using hp, by simpa using he, ?_⟩)⟩
        · simp only [if_neg he]
          rfl
        · rintro ⟨⟩

theorem send_end (hdr : a.draining = false) : avcodec_send_packet C a none =
    decodeAhead C { a with bsf := { a.bsf with eof := true } } := by
  simp [avcodec_send_packet, hdr, AVBSFContext.av_bsf_send_packet]

end

end AVCodecContext

/-- A context with its history since the last flush, where its decoder was in the state `base`. -/
structure Session (D S : Type) where
  ctx : AVCodecContext D S
  base : Core D
  log : List (Out S) := []
  taken : List AVPacket := []
  deriving DecidableEq

namespace Session
variable (C : AVCodec D S)

def opened (c : Core D) : Session D S := { ctx := { core := c }, base := c }

/-- The accepted packets after `avpkt` was sent. -/
def sent (s : Session D S) : Option AVPacket → List AVPacket
  | some p => if s.ctx.Accepts p then s.taken ++ [p] else s.taken
  | none => s.taken

def call (s : Session D S) : Call → Session D S
  | .send avpkt =>
    { s with ctx := (avcodec_send_packet C s.ctx avpkt).2, taken := s.sent avpkt,
             log := s.log ++ delivered (fun _ => []) (avcodec_send_packet C s.ctx avpkt).1 }
  | .receive =>
    { s with ctx := (avcodec_receive_frame C s.ctx).2,
             log := s.log ++ delivered ofFrame (avcodec_receive_frame C s.ctx).1 }
  | .flush => { ctx := avcodec_flush_buffers C s.ctx, base := (avcodec_flush_buffers C s.ctx).core }

def calls (s : Session D S) (cs : List Call) : Session D S := cs.foldl (call C) s

/-- The accepted packet that was still in the filter when the end was announced: it is not given out any
more. -/
def lost (s : Session D S) : Option AVPacket := if s.ctx.bsf.eof then s.ctx.bsf.buffer_pkt else none

/-- What `pkts` have to give: each of them decoded after the other, and at the end what was held back. -/
def expected (s : Session D S) (pkts : List AVPacket) : List (Out S) × Core D :=
  let d := decodeAll C s.base pkts
  if s.ctx.bsf.eof then (d.1 ++ (drained C d.2 0).1, (drained C d.2 0).2) else d

/-- Before the end is announced, `ahead` says how far the packets are decoded; after it, only what is to come
counts. The packet in the filter is the last that was accepted. -/
structure Inv (s : Session D S) : Prop where
  ok : s.ctx.Ok
  ahead : s.ctx.bsf.eof = false → ∃ pre, s.taken = pre ++ s.ctx.bsf.buffer_pkt.toList ∧
    decodeAll C s.base pre =
      (s.log ++ (ofFrame? s.ctx.buffer_frame ++ (restOut C s.ctx).1), (restOut C s.ctx).2)
  ended : s.ctx.bsf.eof = true → ∃ pre, s.taken = pre ++ s.ctx.bsf.buffer_pkt.toList ∧
    s.expected C pre = (s.log ++ todo C s.ctx, (pending C s.ctx).2)

variable {C} {s : Session D S}

/-- Before the end, what was delivered and what is to come is what all accepted packets give. -/
theorem Inv.before (h : s.Inv C) (he : s.ctx.bsf.eof = false) :
    s.expected C s.taken = (s.log ++ todo C s.ctx, (pending C s.ctx).2) := by
  obtain ⟨pre, ht, hpre⟩ := h.ahead he
  rw [expected, he, ht, todo, pending_eq (h.ok.not_done he)]
  simp only [nextOut, he, Bool.false_eq_true, if_false]
  cases s.ctx.bsf.buffer_pkt with
  | none => simp [hpre]
  | some q => simp [decodeAll_concat, hpre]

/-- What was delivered and what is to come is what the accepted packets give, but for the lost one. -/
theorem Inv.total (h : s.Inv C) : ∃ pkts, s.taken = pkts ++ s.lost.toList ∧
    s.expected C pkts = (s.log ++ todo C s.ctx, (pending C s.ctx).2) := by
  by_cases he : s.ctx.bsf.eof = true
  · rw [lost, if_pos he]
    exact h.ended he
  · rw [lost, if_neg he]
    exact ⟨s.taken, (List.append_nil _).symm, h.before (by simpa using he)⟩

theorem Inv.opened (c : Core D) : (opened c : Session D S).Inv C := by
  refine ⟨⟨fun h => ?_, fun h => ?_, fun h => ?_, fun _ => rfl⟩, fun _ => ⟨[], rfl, rfl⟩, fun h => ?_⟩ <;> cases h

/-- `decode_receive_frame_internal` when no frame is kept. -/
theorem Inv.receive (h : s.Inv C) (hf : s.ctx.buffer_frame = none) :
    Inv C { s with ctx := (decode_receive_frame_internal C s.ctx).2,
                   log := s.log ++ delivered ofFrame (decode_receive_frame_internal C s.ctx).1 } := by
  obtain ⟨hg, -⟩ := receive_gives (C := C) h.ok
  generalize delivered ofFrame (decode_receive_frame_internal C s.ctx).1 = os at hg ⊢
  generalize (decode_receive_frame_internal C s.ctx).2 = a at hg ⊢
  refine ⟨hg.ok, fun he => ?_, fun he => ?_⟩
  · have he' : s.ctx.bsf.eof = false := hg.eof.symm.trans he
    have htot := h.before he'
    rw [todo, hf, hg.pending] at htot
    have hfa : a.buffer_frame = none := hg.frame.trans hf
    rcases hg.kept he' with hn | ⟨hb, hr⟩
    · refine ⟨s.taken, by simp [hn], ?_⟩
      rw [expected, he', hg.ok.pending_eq_rest he hn] at htot
      simpa [hfa, ofFrame?] using htot
    · obtain ⟨pre, ht, hpre⟩ := h.ahead he'
      refine ⟨pre, by rw [hb]; exact ht, ?_⟩
      rw [hpre, hf, hr, hfa]
      simp [ofFrame?]
  · have he' : s.ctx.bsf.eof = true := hg.eof.symm.trans he
    obtain ⟨pre, ht, hpre⟩ := h.ended he'
    refine ⟨pre, by rw [hg.held he']; exact ht, ?_⟩
    have heq : expected C { s with ctx := a, log := s.log ++ os } pre = s.expected C pre := by
      simp only [expected, hg.eof]
    rw [heq, hpre, todo, hf, hg.pending, todo, hg.frame.trans hf]
    simp [ofFrame?]

/-- A frame that was received may be kept in `buffer_frame`. -/
theorem Inv.keep {f : AVFrame S} {l : List (Out S)} (h : s.Inv C) (hl : s.log = l ++ [.ok f])
    (hf : s.ctx.buffer_frame = none) : Inv C { s with ctx := { s.ctx with buffer_frame := some f }, log := l } := by
  refine ⟨⟨h.ok.eof, h.ok.in_pkt, h.ok.done, h.ok.errors⟩, fun he => ?_, fun he => ?_⟩
  · obtain ⟨pre, ht, hpre⟩ := h.ahead he
    refine ⟨pre, ht, ?_⟩
    rw [hpre, hl, hf]
    simp [ofFrame?, restOut]
  · obtain ⟨pre, ht, hpre⟩ := h.ended he
    rw [todo, hl, hf] at hpre
    refine ⟨pre, ht, Eq.trans (b := s.expected C pre) rfl (hpre.trans ?_)⟩
    simp only [todo, ofFrame?, Option.toList, List.map_nil, List.map_cons, List.nil_append, List.append_assoc,
      List.cons_append]
    rfl

/-- Decoding in advance delivers nothing but an error. -/
theorem Inv.decodeAhead (h : s.Inv C) :
    Inv C { s with ctx := (decodeAhead C s.ctx).2,
                   log := s.log ++ delivered (fun _ => []) (decodeAhead C s.ctx).1 } := by
  unfold AVCodecContext.decodeAhead
  by_cases hf : s.ctx.buffer_frame = none
  · have hr := h.receive hf
    obtain ⟨hg, hs⟩ := receive_gives (C := C) h.ok
    rw [if_pos (by rw [hf]; rfl)]
    rcases hd : decode_receive_frame_internal C s.ctx with ⟨e | f, a⟩ <;> rw [hd] at hr hg
    · cases e <;> exact hr
    · have hk := hr.keep rfl (hg.frame.trans hf)
      simpa [delivered] using hk
  · rw [if_neg (by rwa [Option.isNone_iff_eq_none])]
    simpa [delivered] using h

/-- A packet that is accepted is in the filter. -/
theorem Inv.accept {p : AVPacket} (h : s.Inv C) (hp : s.ctx.Accepts p) :
    Inv C { s with ctx := { s.ctx with bsf := { s.ctx.bsf with buffer_pkt := some p } }, taken := s.taken ++ [p] } := by
  obtain ⟨hdr, -, he, hb⟩ := hp
  refine ⟨⟨h.ok.eof, h.ok.in_pkt, h.ok.done, h.ok.errors⟩, fun _ => ⟨s.taken, rfl, ?_⟩,
    fun hn => absurd (he.symm.trans hn) Bool.false_ne_true⟩
  obtain ⟨pre, ht, hpre⟩ := h.ahead he
  rw [hb, Option.toList_none, List.append_nil] at ht
  rw [ht, hpre]
  rfl

/-- The end is announced: what is in the filter is lost. -/
theorem Inv.finish (h : s.Inv C) (hdr : s.ctx.draining = false) :
    Inv C { s with ctx := { s.ctx with bsf := { s.ctx.bsf with eof := true } } } := by
  refine ⟨⟨fun _ => rfl, h.ok.in_pkt, h.ok.done, h.ok.errors⟩, fun hn => absurd hn Bool.noConfusion, fun _ => ?_⟩
  by_cases he : s.ctx.bsf.eof = true
  · -- a second announcement changes nothing
    have hb : { s.ctx.bsf with eof := true } = s.ctx.bsf := by rw [← he]
    rw [hb]
    exact h.ended he
  · rw [Bool.not_eq_true] at he
    obtain ⟨pre, ht, hpre⟩ := h.ahead he
    refine ⟨pre, ht, ?_⟩
    rw [todo, pending_eq (by exact h.ok.not_done he)]
    simp only [expected, hpre, nextOut, if_true, List.append_assoc]
    rw [h.ok.errors hdr]
    rfl

theorem Inv.send (h : s.Inv C) (avpkt : Option AVPacket) : Inv C (s.call C (.send avpkt)) := by
  unfold Session.call
  cases avpkt with
  | some p =>
    by_cases hp : s.ctx.Accepts p
    · simpa only [send_accepted C hp, sent, if_pos hp] using (h.accept hp).decodeAhead
    · obtain ⟨e, he, hc⟩ := send_refused C hp
      have hd : delivered (fun _ => []) (.error e : Except AVERROR Unit) = ([] : List (Out S)) := by
        rcases hc with ⟨rfl, -⟩ | rfl | ⟨rfl, -⟩ <;> rfl
      simpa only [he, hd, sent, if_neg hp, List.append_nil] using h
  | none =>
    by_cases hdr : s.ctx.draining = true
    · simpa [avcodec_send_packet, hdr, delivered, sent] using h
    · rw [Bool.not_eq_true] at hdr
      simpa only [send_end C hdr, sent] using (h.finish hdr).decodeAhead

theorem Inv.call (h : s.Inv C) (c : Call) : Inv C (s.call C c) := by
  cases c with
  | send avpkt => exact h.send avpkt
  | receive =>
    unfold Session.call avcodec_receive_frame
    rcases hf : s.ctx.buffer_frame with _ | f
    · exact h.receive hf
    · refine ⟨⟨h.ok.eof, h.ok.in_pkt, h.ok.done, h.ok.errors⟩, fun he => ?_, fun he => ?_⟩
      · obtain ⟨pre, ht, hpre⟩ := h.ahead he
        refine ⟨pre, ht, ?_⟩
        rw [hpre, hf]
        simp [ofFrame?, ofFrame, delivered, restOut]
      · obtain ⟨pre, ht, hpre⟩ := h.ended he
        refine ⟨pre, ht, Eq.trans (b := s.expected C pre) rfl (hpre.trans ?_)⟩
        simp [todo, hf, ofFrame?, ofFrame, delivered, pending, restOut, nextOut]
  | flush => exact .opened _

theorem Inv.calls (h : s.Inv C) (cs : List Call) : Inv C (s.calls C cs) := by
  induction cs generalizing s with
  | nil => exact h
  | cons c cs ih => exact ih (h.call c)

end Session

namespace AVCodecContext
variable {C : AVCodec D S} {a : AVCodecContext D S}

/-- What `avcodec_receive_frame` returns when there is nothing. -/
def nothing (a : AVCodecContext D S) : Out S := .error (if a.bsf.eof then .EOF else .EAGAIN)

/-- `avcodec_receive_frame` returns the first that is to come, or that there is nothing. -/
theorem receive_cases (hok : a.Ok) :
    (avcodec_receive_frame C a).2.Ok ∧ (avcodec_receive_frame C a).2.bsf.eof = a.bsf.eof ∧
      (delivered ofFrame (avcodec_receive_frame C a).1 = [(avcodec_receive_frame C a).1] ∧
          todo C a = (avcodec_receive_frame C a).1 :: todo C (avcodec_receive_frame C a).2 ∨
        todo C a = [] ∧ todo C (avcodec_receive_frame C a).2 = [] ∧ (avcodec_receive_frame C a).1 = a.nothing ∧
          (a.bsf.eof = false → (avcodec_receive_frame C a).2.Idle)) := by
  unfold avcodec_receive_frame
  rcases hf : a.buffer_frame with _ | f
  · obtain ⟨hg, hs⟩ := receive_gives (C := C) hok
    have hfa := hg.frame.trans hf
    refine ⟨hg.ok, hg.eof, ?_⟩
    have htodo : todo C a = delivered ofFrame (decode_receive_frame_internal C a).1 ++
        todo C (decode_receive_frame_internal C a).2 := by
      rw [todo, todo, hf, hfa, hg.pending]
      rfl
    rcases hr : decode_receive_frame_internal C a with ⟨e | f, b⟩ <;> rw [hr] at hg hs htodo hfa
    · cases e with
      | EAGAIN =>
        right
        have hi := hs.again rfl
        have he : a.bsf.eof = false := by rw [← hg.eof, hi.bsf]
        have hn : todo C b = [] := by
          rw [todo, hfa, hg.ok.pending_eq_rest (by rw [hi.bsf]) (by rw [hi.bsf]), restOut, hi.in_pkt]
          rfl
        exact ⟨by rw [htodo, hn]; rfl, hn, by simp [nothing, he], fun _ => hi⟩
      | EOF =>
        right
        obtain ⟨hdr, hp⟩ := hs.eof rfl
        have he : a.bsf.eof = true := by rw [← hg.eof, hg.ok.eof hdr]
        have hn : todo C b = [] := by rw [todo, hfa, hp]; rfl
        exact ⟨by rw [htodo, hn]; rfl, hn, by simp [nothing, he], fun hn => absurd (he.symm.trans hn) (by decide)⟩
      | EINVAL => exact absurd rfl hs.valid
      | BUG => exact .inl ⟨rfl, htodo⟩
      | other e => exact .inl ⟨rfl, htodo⟩
    · exact .inl ⟨rfl, htodo⟩
  · refine ⟨⟨hok.eof, hok.in_pkt, hok.done, hok.errors⟩, rfl, .inl ⟨rfl, ?_⟩⟩
    rw [todo, hf]
    rfl

/-- `n` calls of `avcodec_receive_frame`. -/
def receives (C : AVCodec D S) : ℕ → AVCodecContext D S → List (Out S) × AVCodecContext D S
  | 0, a => ([], a)
  | n + 1, a =>
    ((avcodec_receive_frame C a).1 :: (receives C n (avcodec_receive_frame C a).2).1,
      (receives C n (avcodec_receive_frame C a).2).2)

/-- They return what is to come, and then that there is nothing, for ever. -/
theorem receives_eq (hok : a.Ok) (n : ℕ) :
    (receives C n a).1 = (todo C a ++ List.replicate n a.nothing).take n := by
  induction n generalizing a with
  | zero => rfl
  | succ n ih =>
    obtain ⟨hok', he, hc⟩ := receive_cases (C := C) hok
    have hn : (avcodec_receive_frame C a).2.nothing = a.nothing := by rw [nothing, he, nothing]
    rw [receives, ih hok', hn]
    rcases hc with ⟨-, ht⟩ | ⟨ht, ht', hr, -⟩
    · have hlen : n ≤ (todo C (avcodec_receive_frame C a).2 ++ List.replicate n a.nothing).length := by
        rw [List.length_append, List.length_replicate]
        omega
      rw [ht, List.cons_append, List.take_succ_cons, List.replicate_succ', ← List.append_assoc,
        List.take_append_of_le_length hlen]
    · rw [ht, ht', hr]
      simp [List.replicate_succ]

/-- After what is to come was received, one more call empties the filter. -/
theorem receives_idle (hok : a.Ok) (he : a.bsf.eof = false) :
    (receives C ((todo C a).length + 1) a).2.Idle := by
  induction h : todo C a generalizing a with
  | nil =>
    obtain ⟨-, -, hc⟩ := receive_cases (C := C) hok
    rcases hc with ⟨-, ht⟩ | ⟨-, -, -, hi⟩
    · rw [h] at ht
      cases ht
    · exact hi he
  | cons o os ih =>
    obtain ⟨hok', he', hc⟩ := receive_cases (C := C) hok
    rcases hc with ⟨-, ht⟩ | ⟨ht, -⟩
    · rw [h, List.cons.injEq] at ht
      exact ih hok' (he'.trans he) ht.2.symm
    · rw [h] at ht
      cases ht

theorem Idle.accepts (h : a.Idle) {p : AVPacket} (hp : p.size ≠ 0) : a.Accepts p :=
  ⟨h.draining, hp, by rw [h.bsf], by rw [h.bsf]⟩

theorem receive_again_iff (hok : a.Ok) :
    (avcodec_receive_frame C a).1 = .error .EAGAIN ↔ a.bsf.eof = false ∧ todo C a = [] := by
  obtain ⟨-, -, hc⟩ := receive_cases (C := C) hok
  rcases hc with ⟨hd, ht⟩ | ⟨ht, -, hr, -⟩
  · refine ⟨fun h => ?_, fun h => ?_⟩
    · rw [h] at hd
      cases hd
    · rw [h.2] at ht
      cases ht
  · rw [hr, nothing]
    cases a.bsf.eof <;> simp [ht]

theorem decodeAhead_ne_again : (decodeAhead C a).1 ≠ .error .EAGAIN := by
  unfold decodeAhead
  split_ifs
  · rcases decode_receive_frame_internal C a with ⟨e | f, b⟩
    · cases e <;> rintro ⟨⟩
    · rintro ⟨⟩
  · rintro ⟨⟩

theorem send_again_iff {p : AVPacket} : (avcodec_send_packet C a (some p)).1 = .error .EAGAIN ↔
    a.draining = false ∧ p.size ≠ 0 ∧ a.bsf.eof = false ∧ a.bsf.buffer_pkt ≠ none := by
  constructor
  · intro h
    by_cases ha : a.Accepts p
    · rw [send_accepted C ha] at h
      exact absurd h decodeAhead_ne_again
    · obtain ⟨e, he, hc⟩ := send_refused C ha
      rw [he] at h
      cases h
      rcases hc with ⟨hc, -⟩ | hc | ⟨-, hc⟩
      · cases hc
      · cases hc
      · exact hc
  · rintro ⟨hdr, hp, he, hb⟩
    obtain ⟨q, hq⟩ := Option.ne_none_iff_exists'.mp hb
    simp [avcodec_send_packet, hdr, hp, AVBSFContext.av_bsf_send_packet, he, hq]

end AVCodecContext

/-- A video codec without delay: a picture for each packet that does not start with a zero. -/
def flashes : AVCodec Unit UInt8 where
  type := .video
  delay := false
  sets_pkt_dts := false
  frame_threads := none
  pkt_timebase := ⟨0, 1⟩
  sample_rate := 0
  skip_samples_multiplier _ := 1
  decode _ props pkt :=
    match pkt with
    | some p => (.ok p.size (if p.data.head? = some 0 then none else some ⟨props.pts, 0, 0, 0, false, p.data⟩), ())
    | none => (.ok 0 none, ())
  flush := id
  left _ _ := 0
  budget := 0
  left_le _ _ := Nat.le_refl 0
  advances _ _ _ _ _ _ h := absurd rfl h
  drains _ _ _ _ _ h := by cases h

def flash (b : UInt8) : AVPacket := ⟨[b], 0, 0, []⟩

end LibAV
