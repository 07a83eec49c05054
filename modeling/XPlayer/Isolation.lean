import XPlayer.SLObjects
import XPlayer.XEGL
import XPlayer.Lib.System

/-!
# Several players

`IPlayer::Get` has an `IPlayer` for each index `ι`, and `BuilderPlayer` gives each its own parts. But the audio objects
of all of them are in the static variables of `SLAudioPlay.cpp`, and their textures draw with one `CXEGL`.
`players_isolated` says which sequences of operations do not show this.
-/

namespace XPlayer

/-- What is done with a player. -/
inductive ChannelOp
  | open
  | start (o : SLOutcomes)
  /-- `win` tells whether the window is not null. -/
  | initView (win : Bool)
  | close
  /-- The video decoder passes a frame to the view. -/
  | render (o : EGLOutcomes)

structure Channels (ι : Type) where
  sl : SLStatics ι := {}
  egl : CXEGL ι := {}
  /-- The window of the view is not null. -/
  view : ι → Bool := fun _ => false
  /-- The view has a texture. -/
  txt : ι → Bool := fun _ => false

namespace Channels
variable {ι : Type} [DecidableEq ι]

/-- `GLVideoView::Close`: the texture closes the `CXEGL`. -/
def closeView (i : ι) (s : Channels ι) : Channels ι :=
  if s.txt i then { s with egl := s.egl.close, txt := Function.update s.txt i false } else s

/-- `IPlayer::Close`. -/
def close (i : ι) (s : Channels ι) : Channels ι := { s with sl := s.sl.close }.closeView i

/-- `Render`, with `XTexture::Init` where there is no texture. -/
def render (i : ι) (o : EGLOutcomes) (s : Channels ι) : Channels ι :=
  if s.view i = false then s
  else if s.txt i then { s with egl := s.egl.draw }
  else { s with txt := Function.update s.txt i true, egl := (s.egl.close.init i o).2.draw }

def step (a : ι × ChannelOp) (s : Channels ι) : Channels ι :=
  match a.2 with
  -- all that `Open` does to the audio and the view, it does in `Close`
  | .open | .close => s.close a.1
  | .start o => { s with sl := (s.sl.startPlay a.1 o).2 }
  | .initView win => { s.closeView a.1 with view := Function.update s.view a.1 win }
  | .render o => s.render a.1 o

/-- What was done to the audio objects, and to the displays, surfaces and contexts of `j`. -/
def history (j : ι) (s : Channels ι) : List (SLObject ι × SLCall) × List (EGLCall ι) :=
  (s.sl.log.filter fun c => c.1.owner = j, s.egl.log.filter fun c => c.object.owner = j)

/-- The operation leaves the objects of all other players as they were. -/
def Isolated (a : ι × ChannelOp) (s : Channels ι) : Prop := ∀ j, j ≠ a.1 → (s.step a).history j = s.history j

/-! ### The condition -/

/-- The operation calls `Close` or `StartPlay` of the audio. -/
def usesAudio : ChannelOp → Bool
  | .open | .start _ | .close => true
  | .initView _ | .render _ => false

/-- The operation calls the `CXEGL`. -/
def UsesScreen (a : ι × ChannelOp) (s : Channels ι) : Prop :=
  match a.2 with
  | .open | .initView _ | .close => s.txt a.1 = true
  | .start _ => False
  | .render _ => s.view a.1 = true ∧ (s.txt a.1 = true → s.egl.surface ≠ none)

/-- Where the operation uses the audio there is no engine of another player, and where it uses the screen no display. -/
def Free (a : ι × ChannelOp) (s : Channels ι) : Prop :=
  (usesAudio a.2 = true → ∀ e ∈ s.sl.engineSL, e.owner = a.1) ∧
    (UsesScreen a s → ∀ d ∈ s.egl.display, d.owner = a.1)

end Channels

/-- The players of the process, before anything is done with them. -/
def channels (ι : Type) [DecidableEq ι] : Sys (Channels ι) (ι × ChannelOp) where
  init s := s = {}
  step a s := some (s.step a)

namespace Channels
open History (Grows grows_append grows_iff_filter grows_trans_iff)
variable {ι : Type} [DecidableEq ι] {s : Channels ι}

structure Tied (s : Channels ι) : Prop where
  sl : s.sl.Tied
  egl : s.egl.Tied

theorem closeView_sl (i : ι) (s : Channels ι) : (s.closeView i).sl = s.sl := by
  unfold closeView
  split <;> rfl

theorem closeView_egl (i : ι) (s : Channels ι) : (s.closeView i).egl = if s.txt i then s.egl.close else s.egl := by
  unfold closeView
  split <;> rfl

theorem Tied.step (h : Tied s) (a : ι × ChannelOp) : Tied (s.step a) := by
  obtain ⟨i, op⟩ := a
  have hview : ((s.closeView i).egl).Tied := by
    rw [closeView_egl]
    split
    · exact CXEGL.close_tied h.egl
    · exact h.egl
  have hclose : Tied (s.close i) := by
    refine ⟨?_, ?_⟩
    · rw [close, closeView_sl]
      exact SLStatics.close_tied _
    · rw [close, closeView_egl]
      rwa [closeView_egl] at hview
  cases op with
  | «open» | close => exact hclose
  | start o => exact ⟨(SLStatics.startPlay_of i o s.sl).1, h.egl⟩
  | initView win => exact ⟨(closeView_sl i s).symm ▸ h.sl, hview⟩
  | render o =>
    simp only [Channels.step, render]
    split
    · exact h
    · split
      · exact ⟨h.sl, CXEGL.draw_tied h.egl⟩
      · exact ⟨h.sl, CXEGL.draw_tied (CXEGL.init_of i o (CXEGL.close_tied h.egl)).1⟩

theorem step_sl (h : Tied s) (a : ι × ChannelOp) : s.sl.log <:+ (s.step a).sl.log ∧
    (SLStatics.Calls a.1 s.sl (s.step a).sl ↔ (usesAudio a.2 = true → ∀ e ∈ s.sl.engineSL, e.owner = a.1)) := by
  obtain ⟨i, op⟩ := a
  have hsuf : s.sl.log <:+ s.sl.close.log := List.suffix_append ..
  have hclose := SLStatics.close_calls h.sl i
  have hsame : ∀ {t : Channels ι}, t.sl = s.sl → s.sl.log <:+ t.sl.log ∧ SLStatics.Calls i s.sl t.sl := by
    intro t ht
    rw [ht]
    exact ⟨List.suffix_rfl, Grows.refl _ _⟩
  cases op with
  | «open» | close =>
    simp only [step, close, closeView_sl, usesAudio, true_imp_iff]
    exact ⟨hsuf, hclose⟩
  | start o =>
    have hc := (SLStatics.startPlay_of i o s.sl).2
    simp only [step, usesAudio, true_imp_iff]
    exact ⟨hsuf.trans hc.suffix, (grows_trans_iff hsuf hc).trans hclose⟩
  | initView win =>
    obtain ⟨h1, h2⟩ := hsame (t := s.step (i, .initView win)) (closeView_sl i s)
    exact ⟨h1, iff_of_true h2 nofun⟩
  | render o =>
    obtain ⟨h1, h2⟩ := hsame (t := s.step (i, .render o)) (by
      simp only [step, render]
      split
      · rfl
      · split <;> rfl)
    exact ⟨h1, iff_of_true h2 nofun⟩

theorem step_egl (h : Tied s) (a : ι × ChannelOp) : s.egl.log <:+ (s.step a).egl.log ∧
    (CXEGL.Calls a.1 s.egl (s.step a).egl ↔ (UsesScreen a s → ∀ d ∈ s.egl.display, d.owner = a.1)) := by
  obtain ⟨i, op⟩ := a
  have hview : ∀ {t : Channels ι}, t.egl = (if s.txt i then s.egl.close else s.egl) → s.egl.log <:+ t.egl.log ∧
      (CXEGL.Calls i s.egl t.egl ↔ (s.txt i = true → ∀ d ∈ s.egl.display, d.owner = i)) := by
    intro t ht
    rw [ht]
    split
    · rename_i ht
      simp only [ht, true_imp_iff]
      exact ⟨CXEGL.close_suffix _, CXEGL.close_calls h.egl i⟩
    · exact ⟨List.suffix_rfl, iff_of_true (Grows.refl _ _) fun ht => absurd ht ‹_›⟩
  cases op with
  | «open» | close => exact hview (closeView_egl i _)
  | start o => exact ⟨List.suffix_rfl, iff_of_true (Grows.refl _ _) nofun⟩
  | initView win => exact hview (closeView_egl i s)
  | render o =>
    simp only [step, render, UsesScreen]
    split
    · rename_i hv
      exact ⟨List.suffix_rfl, iff_of_true (Grows.refl _ _) fun hu => absurd (hu.1.symm.trans hv) nofun⟩
    · rename_i hv
      have hv : s.view i = true := by simpa using hv
      split
      · rename_i ht
        refine ⟨CXEGL.draw_suffix _, ?_⟩
        simp only [hv, ht, true_and, true_imp_iff]
        exact CXEGL.draw_calls h.egl i
      · rename_i ht
        obtain ⟨h1, h2, h3⟩ := CXEGL.init_of i o (CXEGL.close_tied h.egl)
        rw [CXEGL.close_close h.egl] at h2
        have hd := h2.trans ((CXEGL.draw_calls h1 i).mpr fun _ => h3)
        refine ⟨(CXEGL.close_suffix _).trans hd.suffix, (grows_trans_iff (CXEGL.close_suffix _) hd).trans ?_⟩
        exact (CXEGL.close_calls h.egl i).trans (imp_iff_right ⟨hv, fun ht' => absurd ht' ht⟩).symm

/-- An operation leaves the objects of all other players as they were if and only if it uses the audio and the screen
where no other player does. -/
theorem isolated_iff (h : Tied s) (a : ι × ChannelOp) : Isolated a s ↔ Free a s := by
  obtain ⟨hs₁, hc₁⟩ := step_sl h a
  obtain ⟨hs₂, hc₂⟩ := step_egl h a
  unfold Isolated Free
  rw [← hc₁, ← hc₂, SLStatics.Calls, CXEGL.Calls, grows_iff_filter hs₁, grows_iff_filter hs₂]
  simp only [history, Prod.mk.injEq]
  exact ⟨fun hi => ⟨fun j hj => (hi j hj).1, fun j hj => (hi j hj).2⟩, fun hi j hj => ⟨hi.1 j hj, hi.2 j hj⟩⟩

omit [DecidableEq ι] in
theorem tied_init : Tied ({} : Channels ι) := by
  refine ⟨fun x hx => ?_, fun x hx => ?_, fun x hx => ?_⟩ <;> cases hx

end Channels

/-- A sequence of operations on any players, with any outcomes of the library calls: each of them leaves the objects of
all other players as they were, if and only if each of them finds the audio and the screen that it uses free or its
own. -/
theorem players_isolated {ι : Type} [DecidableEq ι] (ops : List (ι × ChannelOp)) :
    (channels ι).Along Channels.Isolated ops {} ↔ (channels ι).Along Channels.Free ops {} :=
  Sys.along_congr (I := Channels.Tied) (fun a s t hs ht => by cases ht; exact hs.step a)
    (fun a s hs => Channels.isolated_iff hs a) ops Channels.tied_init

/-- `Open` or `Close` of the player 0 destroys the engine, the mixer and the player that `Start` of the player 1 has
created. -/
theorem players_not_isolated : ¬ ∀ ops : List (UInt8 × ChannelOp), (channels UInt8).Along Channels.Isolated ops {} := by
  intro h
  have hn := ((h [(1, .start {}), (0, .close)]).2 _ rfl).1 1 (by decide)
  have hl := congrArg (fun p => p.1.length) hn
  revert hl
  decide

end XPlayer
