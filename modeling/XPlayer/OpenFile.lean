import XPlayer.Player

/-!
# `IPlayer::Open`

`Open` from its first to its last line on the demuxer, the decoders and the resampler, with the outcomes of the library
calls (`Outcomes`). The parameters of a stream that the file does not have are null: `FFDecode::Open` looks at them
first, `FFResample::Open` does not. A file without stream information stays open, and so does a codec context that
could not be opened, which the next `Close` flushes. `open_clean` says when none of this shows; `Player.exec_open`
that the player does the same step by step.
-/

namespace XPlayer
variable {K : Type} {L : FFmpeg K}

/-- The parts of the player that `Open` works on. -/
structure Parts (K : Type) where
  demux : FFDemux
  dec : Dec → FFDecode K := fun _ => {}
  resample : FFResample := {}

structure Outcomes where
  input : OpenInput
  video : OpenCodec
  audio : OpenCodec
  swr_init : Bool

/-- `FFDecode::Open`. -/
def FFDecode.openPara (L : FFmpeg K) (d : FFDecode K) (para : XParameter) (o : OpenCodec) : FFDecode K :=
  d.clear.free.open L para o

namespace Parts

/-- The parts after `IPlayer::Close`. -/
def closed (L : FFmpeg K) (s : Parts K) : Parts K :=
  { s with demux := s.demux.close, dec := fun d => ((s.dec d).clear.flush L).clear.free }

/-- `IPlayer::Close`; nothing if a null pointer is read. -/
def close (L : FFmpeg K) (s : Parts K) : Option (Parts K) :=
  if (s.dec .video).unopened then none
  else if (s.dec .audio).unopened then none
  else some (s.closed L)

/-- `IPlayer::Open` after `Close`: what it returns, and the parts then; nothing if a null pointer is read. -/
def openClosed (L : FFmpeg K) (s : Parts K) (o : Outcomes) : Option (Bool × Parts K) :=
  match s.demux.open o.input with
  | (false, demux) => some (false, { s with demux })
  | (true, demux) =>
    let video := (s.dec .video).openPara L demux.getVideoPara.1 o.video
    let demux := demux.getVideoPara.2
    let audio := (s.dec .audio).openPara L demux.getAudioPara.1 o.audio
    let demux := demux.getAudioPara.2
    -- `outPara`, and then the argument of `resample->Open`
    let demux := demux.getAudioPara.2
    match demux.getAudioPara.1.para with
    | none => none
    | some para => some (true,
      { demux := demux.getAudioPara.2, resample := s.resample.open para o.swr_init,
        dec := fun d => match d with | .video => video | .audio => audio })

def «open» (L : FFmpeg K) (s : Parts K) (o : Outcomes) : Option (Bool × Parts K) :=
  (s.close L).bind fun s => s.openClosed L o

/-- `Open` returns, and leaves nothing open if it fails: `Read` yields nothing, and no decoder takes a packet. -/
def OpenClean (L : FFmpeg K) (s : Parts K) (o : Outcomes) : Prop :=
  ∃ re t, s.open L o = some (re, t) ∧ (re = false → t.demux.ic = none ∧ (∀ h, (t.demux.read h).1 = {}) ∧
    ∀ d x, ((t.dec d).sendPacket L x).1 = false)

end Parts

theorem sendPacket_free (D : FFDecode K) (h : D.codec = none) (x : XData) : (D.sendPacket L x).1 = false := by
  unfold FFDecode.sendPacket
  split
  · rfl
  · split
    · rfl
    · rename_i p _
      rw [h, L.send_none p]

theorem FFDemux.getVideoPara_ic (d : FFDemux) : d.getVideoPara.2.ic = d.ic := by
  unfold getVideoPara
  split
  · rfl
  · simp only
    split <;> rfl

theorem FFDemux.getAudioPara_ic (d : FFDemux) : d.getAudioPara.2.ic = d.ic := by
  unfold getAudioPara
  split
  · rfl
  · simp only
    split
    · rfl
    · split <;> rfl

theorem FFDemux.getPara_eq (ic : AVFormatContext) (a v : ℕ) (total : ℤ) :
    (mk (some ic) a v total).getVideoPara.2 =
        ⟨some ic, a, if ic.file.best .video < 0 then v else (ic.file.best .video).toNat, total⟩ ∧
      (mk (some ic) a v total).getAudioPara.2 =
        ⟨some ic, if ic.file.best .audio < 0 then a else (ic.file.best .audio).toNat, v, total⟩ := by
  constructor
  · simp only [getVideoPara]
    split <;> rfl
  · simp only [getAudioPara]
    split
    · rfl
    · split <;> rfl

theorem FFDemux.getPara_again {d : FFDemux} {ic : AVFormatContext} (h : d.ic = some ic) :
    d.getVideoPara.2.getAudioPara.2.getVideoPara.2 = d.getVideoPara.2.getAudioPara.2 ∧
      d.getVideoPara.2.getAudioPara.2.getAudioPara.2 = d.getVideoPara.2.getAudioPara.2 := by
  obtain ⟨_, a, v, total⟩ := d
  obtain rfl := h
  by_cases hv : ic.file.best .video < 0 <;> by_cases ha : ic.file.best .audio < 0 <;>
    simp only [getPara_eq, hv, ha, ↓reduceIte, and_self]

theorem FFDemux.getAudioPara_null {d : FFDemux} {ic : AVFormatContext} (h : d.ic = some ic) :
    d.getAudioPara.1.para = none ↔ ic.file.best .audio < 0 := by
  unfold getAudioPara
  simp only [h]
  split
  · rename_i hb
    exact iff_of_true rfl hb
  · rename_i hb
    have hlt := ic.file.best_lt .audio (not_lt.mp hb)
    rw [List.getElem?_eq_getElem hlt]
    exact iff_of_false nofun hb

namespace Parts

theorem open_eq {s : Parts K} (h : ∀ d, (s.dec d).unopened = false) (o : Outcomes) :
    s.open L o = (s.closed L).openClosed L o := by
  simp only [«open», close, h, Bool.false_eq_true, if_false, Option.bind_some]

/-- `Close` flushes both codecs. -/
theorem open_crashes {s : Parts K} {d : Dec} (h : (s.dec d).unopened = true) (o : Outcomes) : s.open L o = none := by
  cases d with
  | video => simp only [«open», close, h, if_true, Option.bind_none]
  | audio => simp only [«open», close, h, if_true, ite_self, Option.bind_none]

/-- `Open` of a file reads a null pointer if and only if the file has no audio stream. -/
theorem open_opened (s : Parts K) (o : Outcomes) {ic : AVFormatContext} (h : o.input = .opened ic) :
    (ic.file.best .audio < 0 → s.openClosed L o = none) ∧
      (0 ≤ ic.file.best .audio → ∃ t, s.openClosed L o = some (true, t)) := by
  have ho := FFDemux.open_opened s.demux ic
  rw [← h] at ho
  rcases hd : s.demux.open o.input with ⟨re, d⟩
  rw [hd] at ho
  obtain ⟨rfl, hic, -⟩ := ho
  replace hic : d.getVideoPara.2.getAudioPara.2.getAudioPara.2.ic = some ic := by
    rw [FFDemux.getAudioPara_ic, FFDemux.getAudioPara_ic, FFDemux.getVideoPara_ic]
    exact hic
  have hnull := FFDemux.getAudioPara_null hic
  simp only [openClosed, hd]
  constructor
  · intro hb
    rw [hnull.mpr hb]
  · intro hb
    obtain ⟨para, hp⟩ := Option.ne_none_iff_exists'.mp (mt hnull.mp (not_lt.mpr hb))
    rw [hp]
    exact ⟨_, rfl⟩

theorem open_failed (s : Parts K) (o : Outcomes) (h : o.input = .failed) :
    ∃ t, (s.closed L).openClosed L o = some (false, t) ∧ t.demux.ic = none ∧ ∀ d, (t.dec d).codec = none := by
  simp only [openClosed, h, FFDemux.open, FFDemux.openInput]
  exact ⟨_, rfl, rfl, fun _ => rfl⟩

theorem open_noInfo (s : Parts K) (o : Outcomes) {ic : AVFormatContext} (h : o.input = .noInfo ic) :
    ∃ t, s.openClosed L o = some (false, t) ∧ t.demux.ic = some ic := by
  simp only [openClosed, h, FFDemux.open, FFDemux.openInput]
  exact ⟨_, rfl, rfl⟩

end Parts

namespace Player

def parts (s : Player K) : Parts K := ⟨s.demux, s.dec, s.resample⟩

theorem exec_flush {s : Player K} {d : Dec} {cs : List Cmd} (hui : s.ui = .flush d :: cs)
    (h : (s.dec d).unopened = false) :
    (player L).exec [.ui] s = some { s.setDec d ((s.dec d).flush L) with ui := cs } := by
  simp [Sys.exec, player, step, uiStep, hui, cmdStep, h]

/-- `Close` of the player, with all mutexes free. -/
theorem exec_close {s : Player K} {cs : List Cmd} (hui : s.ui = closeCmds ++ cs) (hm : s.mux = false)
    (hp : s.packsMutex = fun _ => none) (h : ∀ d, (s.dec d).unopened = false) : ∃ u : Player K,
      (player L).exec (List.replicate 18 .ui) s = some u ∧ u.ui = cs ∧ u.mux = false ∧ (u.packsMutex = fun _ => none) ∧
        u.parts = s.parts.closed L := by
  obtain ⟨flags, demux, demuxMux, dec, packsMutex, resample, resampleMux, audio, mux, demuxW, decW, syncW, demuxN, decN,
    syncN, call, ui, ret, fresh, log⟩ := s
  obtain rfl : ui = closeCmds ++ cs := hui
  obtain rfl : mux = false := hm
  obtain rfl : packsMutex = fun _ => none := hp
  refine ⟨_, Sys.exec_trans (List.replicate 7 Act.ui) rfl <| Sys.exec_trans [Act.ui] (exec_flush rfl (h .video))
    <| Sys.exec_trans [Act.ui] rfl <| Sys.exec_trans [Act.ui] (exec_flush rfl (h .audio))
      (show (player L).exec (List.replicate 8 Act.ui) _ = _ from rfl), rfl, rfl, rfl, ?_⟩
  refine congrArg (fun dec => Parts.mk _ dec _) (funext fun d => ?_)
  cases d <;> rfl

/-- A call of `Open` of the player, with all mutexes free, is `Parts.open`. -/
theorem exec_open {s : Player K} (hui : s.ui = []) (hm : s.mux = false) (hp : s.packsMutex = fun _ => none) (o : Outcomes)
    {re : Bool} {t : Parts K} (h : s.parts.open L o = some (re, t)) :
    ∃ n u, (player L).exec (.request (.open o.input o.video o.audio o.swr_init) :: List.replicate n .ui) s = some u ∧
      u.ui = [] ∧ u.ret = re ∧ u.parts = t := by
  have hun : ∀ d, (s.dec d).unopened = false := by
    intro d
    by_contra hd
    cases (Parts.open_crashes (s := s.parts) (L := L) (eq_true_of_ne_false hd) o).symm.trans h
  rw [Parts.open_eq (s := s.parts) hun] at h
  let w : Player K := { s.emit (.called .open) with ui := (Call.open o.input o.video o.audio o.swr_init).program }
  have hw : w.ui = closeCmds ++ (openCmds o.input o.video o.audio o.swr_init ++ [.ret .open]) := rfl
  obtain ⟨v, hv, hvui, hvm, hvp, hvs⟩ := exec_close (L := L) hw hm hp hun
  replace hvs : v.parts = s.parts.closed L := hvs
  suffices hs : ∃ n u, (player L).exec (List.replicate n .ui) v = some u ∧ u.ui = [] ∧ u.ret = re ∧ u.parts = t by
    obtain ⟨n, u, hu, he⟩ := hs
    refine ⟨18 + n, u, ?_, he⟩
    have hreq : (player L).exec [.request (.open o.input o.video o.audio o.swr_init)] s = some w := by
      simp only [Sys.exec, player, step, hui, if_true, Option.bind_some]
      rfl
    rw [List.replicate_add]
    exact Sys.exec_trans [_] hreq (Sys.exec_trans _ hv hu)
  rw [← hvs] at h
  clear hv hvs hw
  obtain ⟨flags, demux, demuxMux, dec, packsMutex, resample, resampleMux, audio, mux, demuxW, decW, syncW, demuxN, decN,
    syncN, call, ui, ret, fresh, log⟩ := v
  obtain rfl : ui = _ := hvui
  obtain rfl : mux = false := hvm
  obtain rfl : packsMutex = fun _ => none := hvp
  rcases o with ⟨_ | ic | ic, v, a, b⟩
  · cases h
    exact ⟨5, _, rfl, rfl, rfl, rfl⟩
  · cases h
    exact ⟨5, _, rfl, rfl, rfl, rfl⟩
  · -- the demuxer after `demux->Open`
    let d₀ : FFDemux := { demux.close with ic := some ic, total := toInt32 (ic.file.duration.tdiv 1000) }
    obtain ⟨hv, ha⟩ := FFDemux.getPara_again (d := d₀) rfl
    generalize hd : d₀.getVideoPara.2.getAudioPara.2 = d at hv ha
    have ho : demux.open (.opened ic) = (true, d) := by
      rw [← hd]
      rfl
    simp only [Parts.openClosed, parts, ho, hv, ha] at h
    rcases hpara : d.getAudioPara.1.para with _ | para <;> rw [hpara] at h <;> cases h
    obtain ⟨u, hu, hui, hret, hdem, hdec, hres⟩ : ∃ u : Player K,
        (player L).exec (List.replicate 11 .ui) (Player.mk flags demux demuxMux dec
          (fun _ => none) resample resampleMux audio false demuxW decW syncW demuxN decN syncN call
            (openCmds (.opened ic) v a b ++ [.ret .open]) ret fresh log) = some u ∧
        u.ui = [.openResample b, .unlock, .ret .open] ∧ u.ret = true ∧ u.demux = d ∧
        u.dec = (fun e => match e with
          | .video => ((dec .video).openPara L d.getVideoPara.1 v)
          | .audio => ((dec .audio).openPara L d.getAudioPara.1 a)) ∧
        u.resample = resample := by
      refine ⟨_, rfl, rfl, rfl, hd, funext fun e => ?_, rfl⟩
      rw [← hd]
      cases e <;> rfl
    -- `resample->Open`, and the end
    let w : Player K := { u with resample := u.resample.open para b, mux := false, ui := [],
                                 log := .returned .open u.ret :: u.log }
    have hend : (player L).exec (List.replicate 3 .ui) u = some w := by
      simp only [List.replicate, Sys.exec, player, step, uiStep, hui, cmdStep, hdem, hpara, Option.bind_some, emit, w]
    refine ⟨14, w, Sys.exec_trans (List.replicate 11 Act.ui) hu hend, rfl, hret, ?_⟩
    show Parts.mk u.demux u.dec (u.resample.open para b) = _
    rw [hdem, hdec, hres]

end Player

end XPlayer
