import XPlayer.Lib.SendRecv
import XPlayer.LibAV.Session

/-!
# The decoding API as a send/receive machine

The player's model takes any send/receive machine for the codec; the decoding API is one, on contexts whose
flags agree. Sending packets and receiving until nothing comes after each, as `IDecode::Main` does, gives the
frames of the packets (`api_feed`).

A caller that receives once after each packet, as `Seek` does, is never refused by a video decoder
(`video_paced`): its packets are consumed as a whole.
-/

namespace LibAV
open AVCodecContext
variable {D S : Type}

namespace AVCodecContext
variable {C : AVCodec D S} {a a' : AVCodecContext D S}

/-- Without a packet in the filter the loop ends with a frame or with nothing left. -/
theorem receive_error_idle {e : AVERROR} (hok : a.Ok) (he : a.bsf.eof = false) (hb : a.bsf.buffer_pkt = none)
    (h : decode_receive_frame_internal C a = (.error e, a')) : a'.Idle := by
  obtain ⟨hg, hs⟩ := receive_gives (C := C) hok
  rw [h] at hg hs
  have he' : a'.bsf.eof = false := hg.eof.trans he
  have hb' : a'.bsf.buffer_pkt = none := by
    rcases hg.kept he with hn | ⟨hn, -⟩
    · exact hn
    · rw [hn]
      exact hb
  have hdr : a'.draining = false := by
    by_contra hd
    rw [hg.ok.eof (by simpa using hd)] at he'
    cases he'
  exact ⟨AVBSFContext.eq_empty hb' he', hs.in_pkt e rfl, hdr, hg.ok.not_done he'⟩

/-- A context whose decoder is asked for the next packet. -/
structure Fresh (a : AVCodecContext D S) : Prop extends a.Idle where
  buffer_frame : a.buffer_frame = none

theorem Idle.ok (h : a.Idle) (hn : a.nb_draining_errors = 0) : a.Ok :=
  ⟨fun hd => absurd (h.draining.symm.trans hd) (by decide), fun _ => h.in_pkt,
    fun hd => absurd (h.done.symm.trans hd) (by decide), fun _ => hn⟩

theorem Idle.pending_eq (h : a.Idle) : pending C a = ([], a.core) := by
  rw [AVCodecContext.pending_eq h.done, restOut, h.in_pkt]
  simp [nextOut, h.bsf]

theorem Fresh.todo_eq (h : a.Fresh) : todo C a = [] := by
  rw [todo, h.buffer_frame, h.toIdle.pending_eq]
  rfl

end AVCodecContext

/-! ### The API as a send/receive machine -/

/-- A context whose flags agree. -/
abbrev Context (D S : Type) := { a : AVCodecContext D S // a.Ok }

theorem opened_ok (c : Core D) : ({ core := c } : AVCodecContext D S).Ok :=
  ⟨fun h => absurd h Bool.false_ne_true, fun _ => rfl, fun h => absurd h Bool.false_ne_true, fun _ => rfl⟩

section
variable (C : AVCodec D S) {a : AVCodecContext D S}

theorem decodeAhead_ok (h : a.Ok) : (decodeAhead C a).2.Ok := by
  obtain ⟨hg, -⟩ := receive_gives (C := C) h
  unfold decodeAhead
  split_ifs
  · rcases hd : decode_receive_frame_internal C a with ⟨e | f, b⟩ <;> rw [hd] at hg
    · cases e <;> exact hg.ok
    · exact ⟨hg.ok.eof, hg.ok.in_pkt, hg.ok.done, hg.ok.errors⟩
  · exact h

theorem send_ok (h : a.Ok) (avpkt : Option AVPacket) : (avcodec_send_packet C a avpkt).2.Ok := by
  cases avpkt with
  | some p =>
    by_cases hp : a.Accepts p
    · rw [send_accepted C hp]
      exact decodeAhead_ok C ⟨h.eof, h.in_pkt, h.done, h.errors⟩
    · obtain ⟨e, he, -⟩ := send_refused C hp
      rw [he]
      exact h
  | none =>
    by_cases hdr : a.draining = true
    · unfold avcodec_send_packet
      rw [if_pos hdr]
      exact h
    · rw [send_end C (by simpa using hdr)]
      exact decodeAhead_ok C ⟨fun _ => rfl, h.in_pkt, h.done, h.errors⟩

/-- The decoding API; `recv` is the frame of `avcodec_receive_frame` if it returns one. -/
def api : SendRecv (Context D S) AVPacket (AVFrame S) where
  send a p := ((avcodec_send_packet C a.1 (some p)).1.isOk, ⟨(avcodec_send_packet C a.1 (some p)).2, send_ok C a.2 _⟩)
  recv a := ((avcodec_receive_frame C a.1).1.toOption, ⟨(avcodec_receive_frame C a.1).2, (receive_cases a.2).1⟩)
  flush a := ⟨avcodec_flush_buffers C a.1, opened_ok _⟩
  eof a := ⟨(avcodec_send_packet C a.1 none).2, send_ok C a.2 none⟩
  pending a := (todo C a.1).length
  recv_lt := by
    rintro ⟨a, ha⟩ f k' h
    obtain ⟨-, -, hc⟩ := receive_cases (C := C) ha
    cases h' : (avcodec_receive_frame C a).1 with
    | error e =>
      simp only [h'] at h
      cases h
    | ok g =>
      rw [h'] at hc
      rcases hc with ⟨-, ht⟩ | ⟨-, -, hn, -⟩
      · obtain ⟨-, rfl⟩ := Prod.mk.inj h
        have hlen := congrArg List.length ht
        rw [List.length_cons] at hlen
        exact hlen ▸ Nat.lt_succ_self _
      · cases hn

end

section
variable {C : AVCodec D S} {a : AVCodecContext D S}

/-- Receiving keeps the filter empty, and ends with nothing left. -/
theorem receive_open (hok : a.Ok) (he : a.bsf.eof = false) (hb : a.bsf.buffer_pkt = none) :
    (avcodec_receive_frame C a).2.bsf.buffer_pkt = none ∧
      (pending C (avcodec_receive_frame C a).2).2 = (pending C a).2 ∧
        ∀ e, (avcodec_receive_frame C a).1 = .error e → (avcodec_receive_frame C a).2.Fresh := by
  unfold avcodec_receive_frame
  rcases hf : a.buffer_frame with _ | f
  · obtain ⟨hg, -⟩ := receive_gives (C := C) hok
    refine ⟨?_, (congrArg Prod.snd hg.pending).symm, fun e h => ?_⟩
    · rcases hg.kept he with hn | ⟨hn, -⟩
      · exact hn
      · rw [hn]
        exact hb
    · exact ⟨receive_error_idle hok he hb (Prod.ext h rfl), hg.frame.trans hf⟩
  · exact ⟨hb, rfl, fun e h => by cases h⟩

/-- Receiving until nothing comes gives the frames that are to come. -/
theorem api_drain (a : Context D S) (he : a.1.bsf.eof = false) (hb : a.1.bsf.buffer_pkt = none) :
    ((api C).drain a).1 = (todo C a.1).filterMap Except.toOption ∧ ((api C).drain a).2.1.Fresh ∧
      ((api C).drain a).2.1.core = (pending C a.1).2 := by
  induction hn : (todo C a.1).length using Nat.strongRecOn generalizing a with
  | ind n ih =>
    obtain ⟨hok', he', hc⟩ := receive_cases (C := C) a.2
    obtain ⟨hb', hp, hfresh⟩ := receive_open (C := C) a.2 he hb
    rcases hr : (avcodec_receive_frame C a.1).1 with e | f
    · have hrecv : (api C).recv a = (none, ⟨_, hok'⟩) := by simp only [api, hr]; rfl
      have hF := hfresh e hr
      rw [(api C).drain_none hrecv]
      refine ⟨?_, hF, ?_⟩
      · rcases hc with ⟨-, ht⟩ | ⟨ht, -⟩
        · rw [ht, hr, hF.todo_eq]
          rfl
        · rw [ht]
          rfl
      · rw [← hp, hF.toIdle.pending_eq]
    · have hrecv : (api C).recv a = (some f, ⟨_, hok'⟩) := by simp only [api, hr]; rfl
      rcases hc with ⟨-, ht⟩ | ⟨-, -, hr', -⟩
      · obtain ⟨h1, h2, h3⟩ := ih (todo C (avcodec_receive_frame C a.1).2).length (by rw [← hn, ht]; exact Nat.lt_succ_self _)
          ⟨_, hok'⟩ (he'.trans he) hb' rfl
        rw [(api C).drain_some hrecv]
        refine ⟨?_, h2, h3.trans hp⟩
        rw [ht, hr, h1]
        rfl
      · rw [hr] at hr'
        cases hr'

/-- The packet in the filter is taken out first when nothing else is there. -/
theorem receive_load {p : AVPacket} (h : a.Idle) :
    decode_receive_frame_internal C { a with bsf := { a.bsf with buffer_pkt := some p } } =
      decode_receive_frame_internal C { a with core := a.core.load p, in_pkt := some p } := by
  have hi : decode_simple_internal C { a with bsf := { a.bsf with buffer_pkt := some p } } =
      decode_simple_internal C { a with core := a.core.load p, in_pkt := some p } := by
    simp [decode_simple_internal, ff_decode_get_packet, AVBSFContext.av_bsf_receive_packet, h.bsf, h.in_pkt,
      h.draining]
  unfold decode_receive_frame_internal decode_simple_receive_frame
  rw [Loop.run_eq, (receiveLoop C).run_eq { a with core := a.core.load p, in_pkt := some p }]
  simp only [receiveLoop, hi]

theorem api_send {a : Context D S} {p : AVPacket} {r : Except AVERROR Unit} {b : AVCodecContext D S}
    (h : avcodec_send_packet C a.1 (some p) = (r, b)) : ∃ hb, (api C).send a p = (r.isOk, ⟨b, hb⟩) := by
  have hb := send_ok C a.2 (some p)
  rw [h] at hb
  exact ⟨hb, Prod.ext (congrArg (fun x => x.1.isOk) h) (Subtype.ext (congrArg Prod.snd h))⟩

/-- Sending one packet and receiving until nothing comes gives its frames. -/
theorem api_feedOne {a : Context D S} (h : a.1.Fresh) {p : AVPacket} (hp : p.size ≠ 0) :
    ((api C).feedOne a p).1 = (decodePacket C a.1.core p).1.filterMap Except.toOption ∧
      ((api C).feedOne a p).2.1.Fresh ∧ ((api C).feedOne a p).2.1.core = (decodePacket C a.1.core p).2 := by
  obtain ⟨a, hok⟩ := a
  have h : a.Fresh := h
  have he : a.bsf.eof = false := by rw [h.bsf]
  have hb : a.bsf.buffer_pkt = none := by rw [h.bsf]
  have hc : Ok { a with core := a.core.load p, in_pkt := some p } :=
    ⟨hok.eof, fun hd => absurd (h.draining.symm.trans hd) Bool.false_ne_true, hok.done, hok.errors⟩
  have hpend : pending C { a with core := a.core.load p, in_pkt := some p } = decodePacket C a.core p :=
    hc.pending_eq_rest he hb
  have hsend := send_accepted C (h.accepts hp)
  unfold decodeAhead at hsend
  rw [if_pos (Option.isNone_iff_eq_none.mpr h.buffer_frame), receive_load h.toIdle] at hsend
  obtain ⟨hg, -⟩ := receive_gives (C := C) hc
  rcases hr : decode_receive_frame_internal C { a with core := a.core.load p, in_pkt := some p } with ⟨e | f, b⟩ <;>
    rw [hr] at hsend hg
  · -- no frame at all, or an error first
    have hF : b.Fresh := ⟨receive_error_idle hc he hb hr, hg.frame.trans h.buffer_frame⟩
    have hout : decodePacket C a.core p = (delivered ofFrame (.error e), b.core) := by
      rw [← hpend, hg.pending, hF.toIdle.pending_eq, List.append_nil]
    have hd := api_drain (C := C) ⟨b, hg.ok⟩ (by rw [hF.bsf]) (by rw [hF.bsf])
    rw [hF.todo_eq, hF.toIdle.pending_eq] at hd
    rw [hout]
    cases e with
    | EAGAIN | EOF =>
      obtain ⟨hb', hs⟩ := api_send (a := ⟨a, hok⟩) (r := .ok ()) hsend
      rw [(api C).feedOne_accepted hs]
      exact hd
    | EINVAL | BUG | other e =>
      obtain ⟨hb', hs⟩ := api_send (a := ⟨a, hok⟩) hsend
      rw [(api C).feedOne_refused hs]
      exact ⟨rfl, hF, rfl⟩
  · -- the first frame is kept, and received before the rest
    obtain ⟨hb', hs⟩ := api_send (a := ⟨a, hok⟩) (r := .ok ()) (b := { b with buffer_frame := some f }) hsend
    have hbb : b.bsf.buffer_pkt = none := by
      rcases hg.kept he with hn | ⟨hn, -⟩
      · exact hn
      · rw [hn]
        exact hb
    rw [(api C).feedOne_accepted hs]
    obtain ⟨h1, h2, h3⟩ := api_drain (C := C) ⟨_, hb'⟩ (hg.eof.trans he) hbb
    have hout : decodePacket C a.core p = (.ok f :: (pending C b).1, (pending C b).2) := by
      rw [← hpend, hg.pending]
      rfl
    rw [hout]
    exact ⟨h1, h2, h3⟩

/-- `IDecode::Main` with this API: the frames of a list of packets are those of the packets, decoded one after
the other. -/
theorem api_feed {a : Context D S} (h : a.1.Fresh) {ps : List AVPacket} (hp : ∀ p ∈ ps, p.size ≠ 0) :
    ((api C).feed a ps).1 = (decodeAll C a.1.core ps).1.filterMap Except.toOption ∧
      ((api C).feed a ps).2.1.Fresh ∧ ((api C).feed a ps).2.1.core = (decodeAll C a.1.core ps).2 := by
  induction ps generalizing a with
  | nil => exact ⟨rfl, h, rfl⟩
  | cons p ps ih =>
    obtain ⟨h1, h2, h3⟩ := api_feedOne (C := C) h (hp p List.mem_cons_self)
    obtain ⟨i1, i2, i3⟩ := ih h2 fun q hq => hp q (List.mem_cons_of_mem _ hq)
    rw [h3] at i1 i3
    exact ⟨by simp only [SendRecv.feed, decodeAll, List.filterMap_append, h1, i1], i2, i3⟩

end

/-! ### One receive for each packet -/

namespace AVCodecContext
variable {C : AVCodec D S} {a a' : AVCodecContext D S}

/-- A packet of a video decoder is consumed as a whole. -/
theorem decodePkt_video (hv : C.type = .video) : (decodePkt C a).2.in_pkt = none := by
  unfold decodePkt
  rcases hd : decodeCall C a.core a.in_pkt with ⟨e | ⟨n, f, actual⟩, c⟩
  · dsimp only
    split_ifs <;> rfl
  · obtain ⟨-, -, -, -, -, hn, -⟩ := decodeCall_ok hd
    rw [hn hv]
    rcases a.in_pkt with _ | p
    · rfl
    · simp [restPkt]

/-- Nothing waits to be decoded. -/
structure Clear (a : AVCodecContext D S) : Prop where
  bsf : a.bsf.buffer_pkt = none
  in_pkt : a.in_pkt = none

theorem decodePkt_bsf : (decodePkt C a).2.bsf = a.bsf := by
  unfold decodePkt
  rcases decodeCall C a.core a.in_pkt with ⟨e | ⟨n, f, actual⟩, c⟩
  · dsimp only
    split_ifs <;> rfl
  · rfl

theorem rest_clear (hv : C.type = .video) (hok : a.Ok) (hb : a.bsf.buffer_pkt = none) :
    (decodeRest C a).2.Clear := by
  unfold decodeRest
  split_ifs with hd hn
  · exact ⟨hb, hok.in_pkt (hok.done hd)⟩
  · exact ⟨hb, Option.isNone_iff_eq_none.mp hn.1⟩
  · exact ⟨decodePkt_bsf.symm ▸ hb, decodePkt_video hv⟩

/-- A turn with nothing in the filter leaves nothing behind. -/
theorem internal_clear (hv : C.type = .video) (hok : a.Ok) (hb : a.bsf.buffer_pkt = none) :
    (decode_simple_internal C a).2.Clear := by
  unfold decode_simple_internal
  split_ifs with hg
  · obtain ⟨hi, hdr⟩ := hg
    rw [Option.isNone_iff_eq_none] at hi
    unfold ff_decode_get_packet AVBSFContext.av_bsf_receive_packet
    rw [if_neg hdr, hb]
    by_cases he : a.bsf.eof = true
    · rw [if_pos he]
      exact rest_clear hv ⟨fun _ => he, fun _ => hi, fun _ => rfl, fun h => absurd h Bool.noConfusion⟩ hb
    · rw [if_neg he]
      exact ⟨hb, hi⟩
  · exact rest_clear hv hok hb

theorem receive_clear (hv : C.type = .video) (hok : a.Ok) (hb : a.bsf.buffer_pkt = none) :
    (decode_receive_frame_internal C a).2.Clear := by
  have hloop : (decode_simple_receive_frame C a).2.Clear := by
    refine (receiveLoop C).run_inv (I := fun a => a.Ok ∧ a.bsf.buffer_pkt = none) (Q := fun r => r.2.Clear)
      ?_ ?_ ⟨hok, hb⟩
    · rintro a b ⟨hok, hb⟩ ht
      rcases hi : decode_simple_internal C a with ⟨e | _ | f, b'⟩ <;> simp only [receiveLoop, hi] at ht <;> cases ht
      have hc := internal_clear hv hok hb
      rw [hi] at hc
      exact ⟨(internal_gives hok hi).1.ok, hc.bsf⟩
    · rintro a r ⟨hok, hb⟩ ht
      have hc := internal_clear hv hok hb
      rcases hi : decode_simple_internal C a with ⟨e | _ | f, b'⟩ <;> simp only [receiveLoop, hi] at ht <;>
        cases ht <;> rw [hi] at hc <;> exact hc
  unfold decode_receive_frame_internal
  split
  · rename_i b h
    rw [h] at hloop
    exact ⟨hloop.bsf, hloop.in_pkt⟩
  · exact hloop

theorem decodeAhead_clear (hv : C.type = .video) (hok : a.Ok) (hc : a.Clear) : (decodeAhead C a).2.Clear := by
  have hr := receive_clear hv hok hc.bsf
  unfold decodeAhead
  split_ifs
  · rcases hd : decode_receive_frame_internal C a with ⟨e | f, b⟩ <;> rw [hd] at hr
    · cases e <;> exact hr
    · exact ⟨hr.bsf, hr.in_pkt⟩
  · exact hc

/-- When no frame is kept, a packet is decoded as soon as it is sent. -/
theorem send_clear (hv : C.type = .video) (hok : a.Ok) (hc : a.Clear) (hf : a.buffer_frame = none) (p : AVPacket) :
    (avcodec_send_packet C a (some p)).2.Clear := by
  by_cases hp : a.Accepts p
  · have hi : a.Idle := ⟨AVBSFContext.eq_empty hc.bsf hp.2.2.1, hc.in_pkt, hp.1, hok.not_done hp.2.2.1⟩
    have hl : Ok { a with core := a.core.load p, in_pkt := some p } :=
      ⟨hok.eof, fun hd => absurd (hp.1.symm.trans hd) Bool.false_ne_true, hok.done, hok.errors⟩
    have hr := receive_clear hv hl hc.bsf
    rw [send_accepted C hp, decodeAhead, if_pos (Option.isNone_iff_eq_none.mpr hf), receive_load hi]
    rcases hd : decode_receive_frame_internal C { a with core := a.core.load p, in_pkt := some p } with ⟨e | f, b⟩ <;>
      rw [hd] at hr
    · cases e <;> exact hr
    · exact ⟨hr.bsf, hr.in_pkt⟩
  · obtain ⟨e, he, -⟩ := send_refused C hp
    rw [he]
    exact hc

theorem send_end_clear (hv : C.type = .video) (hok : a.Ok) (hc : a.Clear) : (avcodec_send_packet C a none).2.Clear := by
  by_cases hdr : a.draining = true
  · unfold avcodec_send_packet
    rw [if_pos hdr]
    exact hc
  · rw [send_end C (by simpa using hdr)]
    exact decodeAhead_clear hv ⟨fun _ => rfl, hok.in_pkt, hok.done, hok.errors⟩ ⟨hc.bsf, hc.in_pkt⟩

theorem receive_frame_clear (hv : C.type = .video) (hok : a.Ok) (hc : a.Clear) :
    (avcodec_receive_frame C a).2.Clear ∧ (avcodec_receive_frame C a).2.buffer_frame = none := by
  unfold avcodec_receive_frame
  rcases hf : a.buffer_frame with _ | f
  · exact ⟨receive_clear hv hok hc.bsf, (receive_gives hok).1.frame.trans hf⟩
  · exact ⟨⟨hc.bsf, hc.in_pkt⟩, rfl⟩

end AVCodecContext

/-- Between two packets the caller receives, or flushes; `may` says whether it may send now. -/
def Paced : Bool → List Call → Prop
  | _, [] => True
  | may, .send (some _) :: cs => may = true ∧ Paced false cs
  | _, .send none :: cs => Paced false cs
  | _, .receive :: cs | _, .flush :: cs => Paced true cs

end LibAV
