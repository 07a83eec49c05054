import XPlayer.Contexts
import XPlayer.Resample
import XPlayer.SeekTarget
import XPlayer.Timestamps

/-!
# The progress value

`PlayPos` is the position of `vDecode` over `total`, which `Open` computes from the duration of the container. It is
documented as a fraction, but `total` of an unknown duration is a positive number, and nothing keeps the position of a
decoded frame between 0 and `total`.
-/

namespace XPlayer
open Contexts (SamePtr)
variable {K : Type} {L : FFmpeg K}

/-- `total` is positive only if the duration is known, and then it is the duration in milliseconds. -/
def FFDemux.TotalRight (D : FFDemux) (duration : ℤ) : Prop :=
  (0 < D.total → duration ≠ AV_NOPTS_VALUE) ∧ (duration ≠ AV_NOPTS_VALUE → D.total = duration.tdiv 1000)

/-- Over the position `p`, `PlayPos` is a fraction, and 0 if the duration of the open file is unknown. -/
def FFDemux.Places (D : FFDemux) (p : ℤ) : Prop :=
  0 < D.total → p ≠ 0 → 0 ≤ p ∧ p ≤ D.total ∧ ∀ ic ∈ D.ic, ic.file.duration ≠ AV_NOPTS_VALUE

namespace FFDemux

theorem getVideoPara_total (D : FFDemux) : D.getVideoPara.2.total = D.total := by
  unfold getVideoPara
  split
  · rfl
  · simp only
    split <;> rfl

theorem getAudioPara_total (D : FFDemux) : D.getAudioPara.2.total = D.total := by
  unfold getAudioPara
  split
  · rfl
  · simp only
    split
    · rfl
    · split <;> rfl

theorem open_total (D : FFDemux) (ic : AVFormatContext) :
    (D.open (.opened ic)).2.total = toInt32 (ic.file.duration.tdiv 1000) :=
  (getAudioPara_total _).trans (getVideoPara_total _)

theorem totalRight_iff (D : FFDemux) (ic : AVFormatContext) :
    (D.open (.opened ic)).2.TotalRight ic.file.duration ↔
      ic.file.duration ≠ AV_NOPTS_VALUE ∧ FitsInt (ic.file.duration.tdiv 1000) := by
  unfold TotalRight
  rw [open_total]
  generalize ic.file.duration = n
  constructor
  · rintro ⟨hpos, heq⟩
    have hn : n ≠ AV_NOPTS_VALUE := by
      rintro rfl
      exact hpos (by decide) rfl
    exact ⟨hn, toInt32_eq_self.mp (heq hn)⟩
  · rintro ⟨hn, hf⟩
    exact ⟨fun _ => hn, fun _ => toInt32_eq_self.mpr hf⟩

theorem places_congr {D E : FFDemux} (ht : E.total = D.total)
    (hi : E.ic.map (·.file.duration) = D.ic.map (·.file.duration)) (p : ℤ) : E.Places p ↔ D.Places p := by
  have hk : ∀ F : FFDemux, (∀ ic ∈ F.ic, ic.file.duration ≠ AV_NOPTS_VALUE) ↔
      ∀ n ∈ F.ic.map (·.file.duration), n ≠ AV_NOPTS_VALUE := by
    intro F
    cases F.ic <;> simp
  unfold Places
  rw [hk E, hk D, ht, hi]

theorem places_zero (D : FFDemux) : D.Places 0 := fun _ hp => absurd rfl hp

theorem read_duration (D : FFDemux) (h : ℕ) :
    (D.read h).2.ic.map (·.file.duration) = D.ic.map (·.file.duration) := by
  rcases hic : D.ic with _ | ic
  · simp only [read, hic, Option.map_none]
  · rcases hp : ic.packets with _ | ⟨p, ps⟩
    · simp only [read, hic, hp, Option.map_some]
    · rw [read_cons hic hp]
      rfl

theorem seek_total (D : FFDemux) (pos : ℚ) (f : SeekFrame) : (D.seek pos f).2.total = D.total := by
  unfold seek
  split
  · rfl
  · split <;> rfl

theorem seek_duration (D : FFDemux) (pos : ℚ) (f : SeekFrame) :
    (D.seek pos f).2.ic.map (·.file.duration) = D.ic.map (·.file.duration) := by
  unfold seek
  split
  · rfl
  · split
    · simp only [*]
    · rename_i ic hic
      rw [hic]
      rfl

end FFDemux

namespace Player
variable {s t : Player K}

/-- What `PlayPos` is documented to be. -/
def Fraction (s : Player K) : Prop :=
  0 ≤ s.playPos ∧ s.playPos ≤ 1 ∧ ∀ ic ∈ s.demux.ic, ic.file.duration = AV_NOPTS_VALUE → s.playPos = 0

theorem fraction_iff : s.Fraction ↔ s.demux.Places (s.dec .video).pts := by
  unfold Fraction playPos FFDemux.Places
  generalize (s.dec .video).pts = p
  by_cases ht : 0 < s.demux.total
  · have ht' : (0 : ℚ) < s.demux.total := by exact_mod_cast ht
    have h0 : (0 : ℚ) ≤ p / s.demux.total ↔ 0 ≤ p := by
      rw [le_div_iff₀ ht', zero_mul]
      exact_mod_cast Iff.rfl
    have h1 : (p : ℚ) / s.demux.total ≤ 1 ↔ p ≤ s.demux.total := by
      rw [div_le_one ht']
      exact_mod_cast Iff.rfl
    have h2 : (p : ℚ) / s.demux.total = 0 ↔ p = 0 := by simp [ht'.ne']
    rw [if_pos ht, h0, h1]
    simp only [h2]
    constructor
    · rintro ⟨hp, hle, hk⟩ - hne
      exact ⟨hp, hle, fun ic hic hn => hne (hk ic hic hn)⟩
    · intro h
      by_cases hp : p = 0
      · subst hp
        exact ⟨le_rfl, ht.le, fun _ _ _ => rfl⟩
      · obtain ⟨hp', hle, hk⟩ := h ht hp
        exact ⟨hp', hle, fun ic hic hn => absurd hn (hk ic hic)⟩
  · rw [if_neg ht]
    exact iff_of_true ⟨le_rfl, zero_le_one, fun _ _ _ => rfl⟩ fun h => absurd h ht

/-! ### What a step does to the position -/

/-- `total`, the duration and the position of `vDecode` are the same. -/
structure SameDial (s t : Player K) : Prop where
  total : t.demux.total = s.demux.total
  duration : t.demux.ic.map (·.file.duration) = s.demux.ic.map (·.file.duration)
  pts : (t.dec .video).pts = (s.dec .video).pts

theorem SameDial.places (h : SameDial s t) : t.demux.Places (t.dec .video).pts ↔ s.demux.Places (s.dec .video).pts := by
  rw [h.pts]
  exact FFDemux.places_congr h.total h.duration _

theorem SameDial.refl (s : Player K) : SameDial s s := ⟨rfl, rfl, rfl⟩

theorem SameDial.congr {u : Player K} (h : SameDial s t) (h1 : u.demux = t.demux) (h2 : u.dec = t.dec) :
    SameDial s u := ⟨by rw [h1, h.total], by rw [h1, h.duration], by rw [h2, h.pts]⟩

theorem SameDial.setDec {d : Dec} {D : FFDecode K} (h : D.pts = (s.dec d).pts) : SameDial s (s.setDec d D) :=
  ⟨rfl, rfl, s.setDec_congr FFDecode.pts h .video⟩

theorem SameDial.setAudio (s : Player K) (D : FFDecode K) : SameDial s (s.setDec .audio D) :=
  ⟨rfl, rfl, congrArg FFDecode.pts (s.setDec_ne D (nofun : Dec.video ≠ Dec.audio))⟩

theorem SameDial.readBy (s : Player K) (w : Holder) : SameDial s (s.readBy w).2 := by
  rw [readBy_eq]
  exact ⟨FFDemux.read_total .., FFDemux.read_duration .., rfl⟩

theorem SameDial.updates {w : Holder} {u : UpdatePc} {r : Option UpdatePc} (h : Updates w s u t r) : SameDial s t := by
  refine ⟨?_, ?_, by rw [h.dec_fields .video]⟩ <;> rw [updates_eq h]

theorem sendPacket_pts_eq (D : FFDecode K) (x : XData) : (D.sendPacket L x).2.pts = D.pts := by
  unfold FFDecode.sendPacket
  split
  · rfl
  · split <;> rfl

theorem recvFrame_pts_eq (D : FFDecode K) :
    (D.recvFrame L).2.pts = ((L.machine.recv D.codec).1.map fun f => toInt32 f.pts).getD D.pts := by
  unfold FFDecode.recvFrame
  rcases L.machine.recv D.codec with ⟨_ | f, c⟩ <;> rfl

def receivesDec : DecPc → Bool
  | .recv _ => true
  | _ => false

def receivesCmd : Cmd → Bool
  | .seek _ _ (.recv _) => true
  | _ => false

/-- `a` is a call of `RecvFrame` of `vDecode`. -/
def receives (a : Act) (s : Player K) : Bool :=
  match a with
  | .dec .video n => receivesDec (s.decW .video n)
  | .ui => (s.ui.head?.map receivesCmd).getD false
  | _ => false

/-- The position of the frame that `vDecode` receives is 0, or lies between 0 and `total` in a file of known duration;
with a `total` that is not positive it may be any. -/
def Placed (L : FFmpeg K) (a : Act) (s : Player K) : Prop :=
  receives a s = true → ∀ f ∈ (L.machine.recv (s.dec .video).codec).1, s.demux.Places (toInt32 f.pts)

/-- `Open` frees `vDecode` before it opens the demuxer; `b` says that there is no codec context now. -/
def freedFirst : Bool → List Cmd → Bool
  | _, [] => true
  | b, .free d :: cs => freedFirst (b || decide (d = .video)) cs
  | b, .openDemux _ :: cs => b && freedFirst b cs
  | b, .openDec d _ :: cs => freedFirst (b && decide (d ≠ .video)) cs
  | b, _ :: cs => freedFirst b cs

theorem freedFirst_mono {b b' : Bool} {cs : List Cmd} (hb : b = true → b' = true) (h : freedFirst b cs = true) :
    freedFirst b' cs = true := by
  induction cs generalizing b b' with
  | nil => rfl
  | cons c cs ih =>
    cases c with
    | free d =>
      refine ih (fun he => ?_) h
      rw [Bool.or_eq_true] at he ⊢
      exact he.imp_left hb
    | openDemux o =>
      simp only [freedFirst, Bool.and_eq_true] at h ⊢
      exact ⟨hb h.1, ih hb h.2⟩
    | openDec d o =>
      refine ih (fun he => ?_) h
      rw [Bool.and_eq_true] at he ⊢
      exact he.imp_left hb
    | _ => exact ih hb h

theorem freedFirst_program (b : Bool) (c : Call) : freedFirst b c.program = true := by
  refine freedFirst_mono (b := false) nofun ?_
  cases c with
  | start sl => cases sl <;> rfl
  | _ => rfl

/-- Without a codec context the position is 0, and the demuxer is opened only then. -/
structure AtZero (s : Player K) : Prop where
  pts : (s.dec .video).codec = none → (s.dec .video).pts = 0
  ready : freedFirst (s.dec .video).codec.isNone s.ui = true

theorem atZero_of (hs : (t.dec .video).codec.isSome = (s.dec .video).codec.isSome)
    (hp : (s.dec .video).codec = none → (t.dec .video).pts = 0)
    (hu : freedFirst (s.dec .video).codec.isNone t.ui = true) : t.AtZero := by
  have hc : (t.dec .video).codec.isNone = (s.dec .video).codec.isNone := by
    rw [← Option.not_isSome, ← Option.not_isSome, hs]
  refine ⟨fun hn => hp ?_, hc ▸ hu⟩
  rwa [← Option.isNone_iff_eq_none, hc, Option.isNone_iff_eq_none] at hn

/-- `RecvFrame` of `vDecode`. -/
theorem recv_places (hd : t.demux = s.demux) (ht : t.dec .video = ((s.dec .video).recvFrame L).2)
    (hp : s.demux.Places (s.dec .video).pts) : t.demux.Places (t.dec .video).pts ↔
      ∀ f ∈ (L.machine.recv (s.dec .video).codec).1, s.demux.Places (toInt32 f.pts) := by
  rw [hd, ht, recvFrame_pts_eq]
  rcases (L.machine.recv (s.dec .video).codec).1 with _ | f
  · simpa using hp
  · simp

/-- The steps of `Seek`. -/
theorem Seeks.dial {pos : ℚ} {f : SeekFrame} {pc : SeekPc} {r : Option SeekPc} (h : Seeks L pos f s pc t r)
    (hpc : ∀ T, pc ≠ .recv T) : SameDial s t ∨
      t.demux = s.demux ∧ (t.dec .video).pts = 0 := by
  cases h with
  | @clear d =>
    cases d with
    | video => exact .inr ⟨rfl, congrArg FFDecode.pts (s.setDec_self ..)⟩
    | audio => exact .inl ((SameDial.setAudio s _).congr rfl rfl)
  | flush => exact .inl (.setDec rfl)
  | reposition | rejected => exact .inl ⟨FFDemux.seek_total .., FFDemux.seek_duration .., rfl⟩
  | nothing | early | wanted | picture => exact .inl (.readBy s .ui)
  | update h => exact .inl (.updates h)
  | done h => exact .inl ((SameDial.updates h).congr rfl rfl)
  | send => exact .inl ((SameDial.setDec (sendPacket_pts_eq ..)).congr rfl rfl)
  | found | before => exact absurd rfl (hpc _)
  | _ => exact .inl ((SameDial.refl s).congr rfl rfl)

/-- The steps of the workers and the device. -/
theorem Steps.dial {a : Act} (h : Steps L s a t) (hui : a ≠ .ui) (hr : receives a s = false) : SameDial s t := by
  cases h with
  | @demux n u pc h =>
    have hu : SameDial s u := by
      generalize s.demuxW n = pc₀ at h
      cases h with
      | read | nothing => exact .readBy s _
      | update h => exact .updates h
      | done h => exact (SameDial.updates h).congr rfl rfl
      | _ => exact (SameDial.refl s).congr rfl rfl
    exact hu.congr rfl rfl
  | @dec d n u pc h =>
    have hu : SameDial s u := by
      generalize hw : s.decW d n = pc₀ at h
      cases h with
      | @pop x rest => exact (SameDial.setDec (d := d) (D := { s.dec d with packs := rest }) rfl).congr rfl rfl
      | @sent x | @unsent x => exact (SameDial.setDec (sendPacket_pts_eq (L := L) (s.dec d) x)).congr rfl rfl
      | drained | recv =>
        cases d with
        | audio => exact .setAudio s _
        | video => simp [receives, receivesDec, hw] at hr
      | _ => exact (SameDial.refl s).congr rfl rfl
    exact hu.congr rfl rfl
  | sync => exact (SameDial.setDec (d := .video) (D := { s.dec .video with synPts := s.audio.pts }) rfl).congr rfl rfl
  | ui => exact absurd rfl hui
  | _ => exact (SameDial.refl s).congr rfl rfl

theorem Seeks.atZero {pos : ℚ} {f : SeekFrame} {pc : SeekPc} {r : Option SeekPc} (h : Seeks L pos f s pc t r)
    (hA : s.AtZero) (hn : (s.dec .video).codec = none) : (t.dec .video).pts = 0 := by
  by_cases hpc : ∃ T, pc = .recv T
  · obtain ⟨T, rfl⟩ := hpc
    have ht : (t.dec .video) = ((s.dec .video).recvFrame L).2 := by cases h <;> exact s.setDec_self ..
    rw [ht, recvFrame_pts_eq, hn, FFmpeg.recv_none]
    exact hA.pts hn
  · rcases h.dial fun T hT => hpc ⟨T, hT⟩ with hd | ⟨-, hp⟩
    · exact hd.pts.trans (hA.pts hn)
    · exact hp

theorem AtZero.command {c : Cmd} {cs cs' : List Cmd} (h : s.AtZero) (hui : s.ui = c :: cs)
    (hc : Commands L cs s c t cs') : AtZero { t with ui := cs' } := by
  have hr := h.ready
  rw [hui] at hr
  have hkeep : ∀ {u : Player K} {cs' : List Cmd}, u.dec .video = s.dec .video →
      freedFirst (s.dec .video).codec.isNone cs' = true → AtZero { u with ui := cs' } := fun hu hcs =>
    atZero_of (congrArg (fun D => D.codec.isSome) hu) (fun hn => (congrArg FFDecode.pts hu).trans (h.pts hn)) hcs
  have haudio : ∀ D : FFDecode K, (s.setDec .audio D).dec .video = s.dec .video := fun D =>
    s.setDec_ne D (nofun : Dec.video ≠ Dec.audio)
  cases hc with
  | @spawn o => cases o <;> exact hkeep rfl hr
  | @clear d =>
    cases d with
    | audio => exact hkeep (haudio (s.dec .audio).clear) hr
    | video =>
      have hv := s.setDec_self .video (s.dec .video).clear
      exact atZero_of (congrArg (fun D => D.codec.isSome) hv) (fun _ => congrArg FFDecode.pts hv) hr
  | @flush d =>
    cases d with
    | audio => exact hkeep (haudio _) hr
    | video =>
      have hv := s.setDec_self .video ((s.dec .video).flush L)
      refine atZero_of ?_ (fun hn => (congrArg FFDecode.pts hv).trans (h.pts hn)) hr
      exact (congrArg (fun D => D.codec.isSome) hv).trans (FFDecode.flush_isSome _)
  | @free d =>
    cases d with
    | audio =>
      simp only [freedFirst, reduceCtorEq, decide_false, Bool.or_false] at hr
      exact hkeep (haudio _) hr
    | video =>
      have hv := s.setDec_self .video (s.dec .video).free
      refine ⟨fun _ => congrArg FFDecode.pts hv, ?_⟩
      rw [show ({ s.setDec .video (s.dec .video).free with ui := cs } : Player K).dec .video = _ from hv]
      simpa [freedFirst, FFDecode.free] using hr
  | opened =>
    simp only [freedFirst, Bool.and_eq_true] at hr
    exact hkeep rfl hr.2
  | openFailed => exact hkeep rfl rfl
  | @openDec d o =>
    cases d with
    | audio =>
      simp only [freedFirst, ne_eq, reduceCtorEq, not_false_eq_true, decide_true, Bool.and_true] at hr
      exact hkeep (haudio _) hr
    | video =>
      have hr : freedFirst false cs = true := by simpa [freedFirst] using hr
      have hopen : ∀ D : FFDecode K, D = s.dec .video ∨ D.codec.isSome = true →
          AtZero { s.setDec .video D with ui := cs } := by
        intro D hD
        have hv := s.setDec_self .video D
        rcases hD with rfl | hD
        · exact hkeep hv (freedFirst_mono (b := false) (by rintro ⟨⟩) hr)
        · refine ⟨fun hn => ?_, freedFirst_mono (b := false) (by rintro ⟨⟩) hr⟩
          rw [show D.codec = none from (congrArg FFDecode.codec hv).symm.trans hn] at hD
          cases hD
      refine hopen _ ?_
      unfold FFDecode.open
      split
      · exact .inl rfl
      · exact .inl rfl
      · exact .inr rfl
      · exact .inr rfl
  | seek hs | sought hs => exact atZero_of ((SamePtr.seeks hs).codec .video) (fun hn => hs.atZero h hn) hr
  | _ => exact hkeep rfl hr

theorem Commands.places {c : Cmd} {cs cs' : List Cmd} (hA : s.AtZero) (hui : s.ui = c :: cs)
    (hp : s.demux.Places (s.dec .video).pts) (hc : Commands L cs s c t cs') :
    t.demux.Places (t.dec .video).pts ↔ Placed L .ui s := by
  have hr := hA.ready
  rw [hui] at hr
  have hrec : receives .ui s = receivesCmd c := by simp [receives, hui]
  have hother : receivesCmd c = false → t.demux.Places (t.dec .video).pts →
      (t.demux.Places (t.dec .video).pts ↔ Placed L .ui s) := fun hn ht =>
    iff_of_true ht fun hy => absurd (hrec.symm.trans hy) (ne_true_of_eq_false hn)
  have hdial : receivesCmd c = false → SameDial s t → (t.demux.Places (t.dec .video).pts ↔ Placed L .ui s) :=
    fun hn hd => hother hn (hd.places.mpr hp)
  have hzero : receivesCmd c = false → (t.dec .video).pts = 0 →
      (t.demux.Places (t.dec .video).pts ↔ Placed L .ui s) := fun hn ht => by
    refine hother hn ?_
    rw [ht]
    exact FFDemux.places_zero _
  cases hc with
  | @spawn o => cases o <;> exact hdial rfl ((SameDial.refl s).congr rfl rfl)
  | @clear d =>
    cases d with
    | audio => exact hdial rfl ((SameDial.setAudio s _).congr rfl rfl)
    | video => exact hzero rfl (congrArg FFDecode.pts (s.setDec_self ..))
  | flush => exact hdial rfl (.setDec rfl)
  | @free d =>
    cases d with
    | audio => exact hdial rfl (.setAudio s _)
    | video => exact hzero rfl (congrArg FFDecode.pts (s.setDec_self ..))
  | closeDemux =>
    refine hother rfl fun h1 h2 => ?_
    obtain ⟨h3, h4, -⟩ := hp h1 h2
    exact ⟨h3, h4, nofun⟩
  | opened | openFailed =>
    simp only [freedFirst, Bool.and_eq_true, Option.isNone_iff_eq_none] at hr
    exact hzero rfl (hA.pts hr.1)
  | videoPara =>
    exact hdial rfl ⟨FFDemux.getVideoPara_total _, congrArg (Option.map _) (FFDemux.getVideoPara_ic _), rfl⟩
  | audioPara =>
    exact hdial rfl ⟨FFDemux.getAudioPara_total _, congrArg (Option.map _) (FFDemux.getAudioPara_ic _), rfl⟩
  | @openDec d o =>
    refine hdial rfl (.setDec ?_)
    unfold FFDecode.open
    split <;> rfl
  | @seek pos f pc _ _ hs | @sought pos f pc _ hs =>
    by_cases hpc : ∃ T, pc = .recv T
    · obtain ⟨T, rfl⟩ := hpc
      have hd : t.demux = s.demux ∧ t.dec .video = ((s.dec .video).recvFrame L).2 := by
        cases hs <;> exact ⟨rfl, s.setDec_self ..⟩
      rw [recv_places hd.1 hd.2 hp]
      exact ⟨fun h _ => h, fun h => h hrec⟩
    · have hn : receivesCmd (.seek pos f pc) = false := by
        cases pc with
        | recv T => exact absurd ⟨T, rfl⟩ hpc
        | _ => rfl
      rcases hs.dial fun T hT => hpc ⟨T, hT⟩ with hd | ⟨-, ht⟩
      · exact hdial hn hd
      · exact hzero hn ht
  | _ => exact hdial rfl ((SameDial.refl s).congr rfl rfl)

theorem Steps.places {a : Act} (hA : s.AtZero) (hp : s.demux.Places (s.dec .video).pts) (h : Steps L s a t) :
    t.AtZero ∧ (t.demux.Places (t.dec .video).pts ↔ Placed L a s) := by
  by_cases hui : a = .ui
  · subst hui
    cases h with
    | ui hui hc =>
      have hpl := Commands.places hA hui hp hc
      exact ⟨hA.command hui hc, hpl⟩
  by_cases hq : ∃ c, a = .request c
  · obtain ⟨c, rfl⟩ := hq
    cases h with
    | request =>
      exact ⟨⟨hA.pts, freedFirst_program _ c⟩, iff_of_true hp fun hr => absurd hr nofun⟩
  have hu := h.ui_eq hui fun c hc => hq ⟨c, hc⟩
  have hs := (SamePtr.worker h hui).codec .video
  have hready : freedFirst (s.dec .video).codec.isNone t.ui = true := by
    rw [hu]
    exact hA.ready
  by_cases hr : receives a s = true
  · have hd : t.demux = s.demux ∧ t.dec .video = ((s.dec .video).recvFrame L).2 := by
      cases h with
      | @dec d n u pc h =>
        cases d with
        | audio => cases hr
        | video =>
          have hr : receivesDec (s.decW .video n) = true := hr
          generalize s.decW .video n = pc₀ at h hr
          cases h with
          | drained | recv =>
            have hv := s.setDec_self .video ((s.dec .video).recvFrame L).2
            exact ⟨rfl, hv⟩
          | _ => cases hr
      | ui => exact absurd rfl hui
      | _ => cases hr
    refine ⟨atZero_of hs (fun hn => ?_) hready, ?_⟩
    · rw [hd.2, recvFrame_pts_eq, hn, FFmpeg.recv_none]
      exact hA.pts hn
    · rw [recv_places hd.1 hd.2 hp]
      exact ⟨fun h _ => h, fun h => h hr⟩
  · have hd := h.dial hui (eq_false_of_ne_true hr)
    exact ⟨atZero_of hs (fun hn => hd.pts.trans (hA.pts hn)) hready,
      iff_of_true (hd.places.mpr hp) fun hy => absurd hy hr⟩

/-- `RecvFrame` does not wait. -/
theorem receives_enabled {a : Act} (hr : receives a s = true) : s.step L a ≠ none := by
  cases a with
  | dec d n =>
    cases d with
    | audio => cases hr
    | video =>
      have hr : receivesDec (s.decW .video n) = true := hr
      unfold receivesDec at hr
      split at hr
      · rename_i hw
        simp [Player.step, decStep, hw]
      · cases hr
  | ui =>
    rcases hui : s.ui with _ | ⟨c, cs⟩
    · simp [receives, hui] at hr
    · have hr : receivesCmd c = true := by simpa [receives, hui] using hr
      unfold receivesCmd at hr
      split at hr
      · simp only [Player.step, uiStep, hui, cmdStep, seekStep]
        split_ifs <;> simp
      · cases hr
  | _ => cases hr

end Player

/-- `Open` leaves the right `total` if and only if the duration is known and its milliseconds are an `int`; and
`PlayPos` is a fraction in all states of a run if and only if every frame that `vDecode` receives is placed in the
file. -/
theorem progress_fraction (L : FFmpeg K) :
    (∀ (D : FFDemux) (ic : AVFormatContext), (D.open (.opened ic)).2.TotalRight ic.file.duration ↔
      ic.file.duration ≠ AV_NOPTS_VALUE ∧ FitsInt (ic.file.duration.tdiv 1000)) ∧
    ∀ (total : ℤ) (as : List Act),
      (player L).Along (fun a s => ∀ t, s.step L a = some t → t.Fraction) as { demux := { total := total } } ↔
        (player L).Along (Player.Placed L) as { demux := { total := total } } := by
  refine ⟨FFDemux.totalRight_iff, fun total as => ?_⟩
  refine Sys.along_good_iff (I := Player.AtZero) (fun a s _ hn hr => ?_) (fun a s t hA hg ht => ?_) as ⟨fun _ => rfl, rfl⟩
    (Player.fraction_iff.mpr (FFDemux.places_zero _))
  · exact absurd hn (Player.receives_enabled hr)
  · rw [Player.fraction_iff] at hg ⊢
    exact (Player.steps ht).places hA hg

/-- The `total` of a file of unknown duration is positive. -/
theorem total_of_unknown : ¬ ∀ (D : FFDemux) (ic : AVFormatContext),
    (D.open (.opened ic)).2.TotalRight ic.file.duration := by
  intro h
  let file : Container := ⟨[], AV_NOPTS_VALUE, fun _ => -1, fun _ h => absurd h (by decide),
    fun _ h => absurd h (by decide)⟩
  exact (h { total := 0 } ⟨file, []⟩).1 (by decide) rfl

end XPlayer
