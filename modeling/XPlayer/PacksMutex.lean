import XPlayer.PauseFlags

/-!
# Waiting for `packsMutex`

The decoder worker keeps `packsMutex` while it decodes a packet, through `Notify`, `Resample` and the wait
for space in the audio queue: `Holds` says who has it. A controller that waits for it waits for that
worker.

Inside `Close` every flag that these loops test is set, so the worker releases the mutex by its own steps
(`close_through`).
-/

namespace XPlayer
variable {K : Type} {L : FFmpeg K}

/-- Between `packsMutex.lock()` and `packsMutex.unlock()`. -/
def DecPc.locked : DecPc → Bool
  | .gone | .exitTest | .pauseTest | .lock => false
  | _ => true

namespace Player
variable {s s' : Player K} {d : Dec} {n : ℕ}

@[simp] theorem setDecW_decW (s : Player K) (d d' : Dec) (n m : ℕ) (pc : DecPc) :
    (s.setDecW d n pc).decW d' m = if d' = d ∧ m = n then pc else s.decW d' m := by
  by_cases hd : d' = d
  · subst hd
    by_cases hm : m = n
    · subst hm
      simp [setDecW]
    · simp [setDecW, hm]
  · simp [setDecW, hd]

/-- A worker that does not exist yet is nowhere, and `packsMutex` is held by the worker that is between
`lock` and `unlock`. -/
structure Holds (s : Player K) : Prop where
  gone : ∀ d n, s.decN d ≤ n → s.decW d n = .gone
  holder : ∀ d n, s.packsMutex d = some n ↔ (s.decW d n).locked = true

/-- How a step of the worker `n` changes `packsMutex`. -/
theorem Decodes.locked {pc pc' : DecPc} (h : Decodes L d n s pc s' pc') :
    (pc'.locked = pc.locked ∧ s'.packsMutex = s.packsMutex) ∨
      (pc'.locked = true ∧ s.packsMutex d = none ∧ s'.packsMutex = Function.update s.packsMutex d (some n)) ∨
      (pc.locked = true ∧ pc'.locked = false ∧ s'.packsMutex = Function.update s.packsMutex d none) := by
  cases h with
  | pop hm => exact .inr (.inl ⟨rfl, hm, rfl⟩)
  | drop => exact .inr (.inr ⟨rfl, rfl, rfl⟩)
  | _ => exact .inl ⟨rfl, rfl⟩

theorem Holds.of_eq (h : Holds s) (hN : s'.decN = s.decN) (hW : s'.decW = s.decW)
    (hm : s'.packsMutex = s.packsMutex) : Holds s' := by
  refine ⟨?_, ?_⟩
  · rw [hN, hW]
    exact h.gone
  · rw [hW, hm]
    exact h.holder

theorem Holds.dec (h : Holds s) {t : Player K} {pc : DecPc} (hd : Decodes L d n s (s.decW d n) t pc) :
    Holds (t.setDecW d n pc) := by
  have hN : t.decN = s.decN := (congrArg Player.decN hd.eq :)
  have hW : t.decW = s.decW := (congrArg Player.decW hd.eq :)
  refine ⟨fun d' m hm => ?_, fun d' m => ?_⟩
  · have hg := h.gone d' m (hN ▸ hm)
    rw [setDecW_decW]
    split
    · -- a worker that does not exist takes no step
      rename_i he
      obtain ⟨rfl, rfl⟩ := he
      rw [hg] at hd
      cases hd
    · rw [hW]
      exact hg
  · show t.packsMutex d' = some m ↔ _
    rw [setDecW_decW, hW]
    have hh := h.holder d' m
    rcases hd.locked with ⟨hl, hm⟩ | ⟨hl, hnone, hm⟩ | ⟨hl, hl', hm⟩ <;> rw [hm]
    · split
      · rename_i he
        obtain ⟨rfl, rfl⟩ := he
        rw [hl]
        exact hh
      · exact hh
    · by_cases hd' : d' = d
      · subst hd'
        rw [Function.update_self]
        split
        · rename_i he
          obtain ⟨-, rfl⟩ := he
          exact ⟨fun _ => hl, fun _ => rfl⟩
        · rename_i he
          refine ⟨fun hs => absurd ⟨rfl, (Option.some.inj hs).symm⟩ he, fun hs => ?_⟩
          rw [← hh, hnone] at hs
          cases hs
      · rw [Function.update_of_ne hd', if_neg fun he => hd' he.1]
        exact hh
    · by_cases hd' : d' = d
      · subst hd'
        rw [Function.update_self]
        split
        · rename_i he
          obtain ⟨-, rfl⟩ := he
          rw [hl']
          exact ⟨fun hs => (by cases hs), fun hs => (by cases hs)⟩
        · rename_i he
          refine ⟨fun hs => (by cases hs), fun hs => ?_⟩
          have hn := (h.holder d' n).mpr hl
          rw [← hh, hn] at hs
          exact absurd ⟨rfl, (Option.some.inj hs).symm⟩ he
      · rw [Function.update_of_ne hd', if_neg fun he => hd' he.1]
        exact hh

theorem Holds.spawn (h : Holds s) (o : Obj) : Holds (s.spawn o) := by
  cases o with
  | dec d =>
    refine ⟨fun d' m hm => ?_, fun d' m => ?_⟩
    · show (s.setDecW d (s.decN d) .exitTest).decW d' m = .gone
      have hm : Function.update s.decN d (s.decN d + 1) d' ≤ m := hm
      rw [setDecW_decW]
      by_cases hd : d' = d
      · subst hd
        rw [Function.update_self] at hm
        rw [if_neg fun he => by omega]
        exact h.gone d' m (by omega)
      · rw [Function.update_of_ne hd] at hm
        rw [if_neg fun he => hd he.1]
        exact h.gone d' m hm
    · show s.packsMutex d' = some m ↔ ((s.setDecW d (s.decN d) .exitTest).decW d' m).locked = true
      rw [setDecW_decW, h.holder d' m]
      split
      · rename_i he
        obtain ⟨rfl, rfl⟩ := he
        rw [h.gone d' _ le_rfl]
        exact Iff.rfl
      · exact Iff.rfl
  | _ => exact h.of_eq rfl rfl rfl

theorem Holds.step {a : Act} (h : Holds s) (hs : Steps L s a s') : Holds s' := by
  cases hs with
  | demux hd => rw [hd.eq]; exact h.of_eq rfl rfl rfl
  | dec hd => exact h.dec hd
  | ui hui hc =>
    cases hc with
    | spawn => exact (h.spawn _).of_eq rfl rfl rfl
    | seek hk => rw [hk.eq]; exact h.of_eq rfl rfl rfl
    | sought hk => rw [hk.eq]; exact h.of_eq rfl rfl rfl
    | _ => exact h.of_eq rfl rfl rfl
  | _ => exact h.of_eq rfl rfl rfl

/-! ### The way out of the section -/

/-- By steps of the worker `n` alone, `packsMutex` of `d` is released. -/
def Releases (L : FFmpeg K) (d : Dec) (n : ℕ) (s : Player K) : Prop :=
  ∃ t, (player L).Run (fun a _ => a = .dec d n) s t ∧ t.packsMutex d = none

theorem Releases.of_step (hs : s.decStep L d n = some s') (h : Releases L d n s') : Releases L d n s := by
  obtain ⟨t, ht, hm⟩ := h
  exact ⟨t, .cons (a := .dec d n) rfl hs ht, hm⟩

theorem releases_drop {x : XData} (hpc : s.decW d n = .drop x) : Releases L d n s := by
  have hs : s.decStep L d n = some (((s.emit (.drop (.decoder d n) x)).setPacks d none).setDecW d n .exitTest) := by
    simp only [decStep, hpc]
  exact .of_step hs ⟨_, .refl, Function.update_self ..⟩

/-- `isExit` of the decoder and of `audioPlay` are set, and `FFResample::mux` is free. -/
structure Exiting (d : Dec) (s : Player K) : Prop where
  dec : s.isExit (.dec d) = true
  audioPlay : s.isExit .audioPlay = true
  resample : s.resampleMux = false

theorem releases_innerExit {x : XData} (h : Exiting d s) (hpc : s.decW d n = .innerExit x) :
    Releases L d n s := by
  have hs : s.decStep L d n = some (s.setDecW d n (.drop x)) := by
    simp only [decStep, hpc, h.dec, ↓reduceIte]
  exact .of_step hs (releases_drop (x := x) (by simp))

theorem releases_pcmExit {x y : XData} (h : Exiting d s) (hpc : s.decW d n = .pcmExit x y) :
    Releases L d n s := by
  have hs : s.decStep L d n = some (s.setDecW d n (.innerExit x)) := by
    simp only [decStep, hpc, h.audioPlay, ↓reduceIte]
  exact .of_step hs (releases_innerExit (x := x) ⟨h.dec, h.audioPlay, h.resample⟩ (by simp))

theorem releases_pcmSection {x y : XData} (h : Exiting d s) (hpc : s.decW d n = .pcmSection x y) :
    Releases L d n s := by
  rcases ha : s.audio.update y with _ | a
  · -- the queue is full: the next test of `isExit` ends the wait
    have hs : s.decStep L d n = some (s.setDecW d n (.pcmExit x y)) := by
      simp only [decStep, hpc, ha]
    exact .of_step hs (releases_pcmExit (x := x) (y := y) ⟨h.dec, h.audioPlay, h.resample⟩ (by simp))
  · have hs : s.decStep L d n =
        some (({ s with audio := a }.emit (.queued y)).setDecW d n (.innerExit x)) := by
      simp only [decStep, hpc, ha]
    exact .of_step hs (releases_innerExit (x := x) ⟨h.dec, h.audioPlay, h.resample⟩ (by simp))

theorem releases_resample {x f : XData} (h : Exiting d s) (hpc : s.decW d n = .resample x f) :
    Releases L d n s := by
  by_cases hf : f.size ≤ 0
  · have hs : s.decStep L d n = some (s.setDecW d n (.innerExit x)) := by
      simp only [decStep, hpc, hf, ↓reduceIte]
    exact .of_step hs (releases_innerExit (x := x) ⟨h.dec, h.audioPlay, h.resample⟩ (by simp))
  · rcases hr : s.resample.resample L s.fresh f with _ | _ | y
    · have hs : s.decStep L d n = some (s.setDecW d n (.innerExit x)) := by
        simp [decStep, hpc, hf, h.resample, hr]
      exact .of_step hs (releases_innerExit (x := x) ⟨h.dec, h.audioPlay, h.resample⟩ (by simp))
    · -- this frame leaves `FFResample::mux` locked, and is the last one
      have hs : s.decStep L d n = some ({ s with resampleMux := true }.setDecW d n (.innerExit x)) := by
        simp [decStep, hpc, hf, h.resample, hr]
      have hs' : ({ s with resampleMux := true }.setDecW d n (.innerExit x)).decStep L d n =
          some (({ s with resampleMux := true }.setDecW d n (.innerExit x)).setDecW d n (.drop x)) := by
        have hx : ({ s with resampleMux := true }.setDecW d n (.innerExit x)).isExit (.dec d) = true := h.dec
        simp only [decStep, setDecW_decW, and_self, hx, ↓reduceIte]
      exact .of_step hs (.of_step hs' (releases_drop (x := x) (by simp)))
    · have hs : s.decStep L d n =
          some (({ s with fresh := s.fresh + 1 }.emit (.resampled y)).setDecW d n (.pcmExit x y)) := by
        simp [decStep, hpc, hf, h.resample, hr]
      exact .of_step hs (releases_pcmExit (x := x) (y := y) ⟨h.dec, h.audioPlay, h.resample⟩ (by simp))

theorem releases_notify {x f : XData} (h : Exiting d s) (hpc : s.decW d n = .notify x f) :
    Releases L d n s := by
  have hs : s.decStep L d n = some ((s.emit (.notify d f)).setDecW d n
      (if d = .video then .innerExit x else .resample x f)) := by
    simp only [decStep, hpc]
  refine .of_step hs ?_
  split
  · exact releases_innerExit (x := x) ⟨h.dec, h.audioPlay, h.resample⟩ (by simp)
  · exact releases_resample (x := x) (f := f) ⟨h.dec, h.audioPlay, h.resample⟩ (by simp)

theorem releases_recv {x : XData} (h : Exiting d s) (hpc : s.decW d n = .recv x) : Releases L d n s := by
  have hs : s.decStep L d n = some ((s.setDec d ((s.dec d).recvFrame L).2).setDecW d n
      (if ((s.dec d).recvFrame L).1.data = .null then .drop x else .notify x ((s.dec d).recvFrame L).1)) := by
    simp only [decStep, hpc]
  refine .of_step hs ?_
  split
  · exact releases_drop (x := x) (by simp)
  · exact releases_notify (x := x) (f := ((s.dec d).recvFrame L).1) ⟨h.dec, h.audioPlay, h.resample⟩ (by simp)

theorem releases_send {x : XData} (h : Exiting d s) (hpc : s.decW d n = .send x) : Releases L d n s := by
  have hs : s.decStep L d n = some (((s.setDec d ((s.dec d).sendPacket L x).2).emit
      (.send (.decoder d n) x)).setDecW d n
        (if ((s.dec d).sendPacket L x).1 = true then .innerExit x else .drop x)) := by
    simp only [decStep, hpc]
  refine .of_step hs ?_
  split
  · exact releases_innerExit (x := x) ⟨h.dec, h.audioPlay, h.resample⟩ (by simp)
  · exact releases_drop (x := x) (by simp)

/-- A worker anywhere in its section releases `packsMutex`. -/
theorem releases_locked (h : Exiting d s) (hpc : (s.decW d n).locked = true) : Releases L d n s := by
  rcases he : s.decW d n with _ | _ | _ | _ | x | x | x | ⟨x, f⟩ | ⟨x, f⟩ | ⟨x, y⟩ | ⟨x, y⟩ | x
  case gone | exitTest | pauseTest | lock =>
    rw [he] at hpc
    cases hpc
  · exact releases_send h he
  · exact releases_innerExit h he
  · exact releases_recv h he
  · exact releases_notify h he
  · exact releases_resample h he
  · exact releases_pcmExit h he
  · exact releases_pcmSection h he
  · exact releases_drop he

/-! ### `Close` -/

end Player

open Player

/-- The frame that a step resamples. -/
def Player.resampling (s : Player K) : Act → Option XData
  | .dec d n =>
    match s.decW d n with
    | .resample _ f => some f
    | _ => none
  | _ => none

/-- `Resample` computes a positive output size: it does not leave its mutex locked. -/
def PositiveSize (L : FFmpeg K) (a : Act) (s : Player K) : Prop :=
  ∀ f ∈ s.resampling a, s.resample.resample L s.fresh f ≠ .leaked

instance (L : FFmpeg K) (a : Act) (s : Player K) : Decidable (PositiveSize L a s) :=
  inferInstanceAs (Decidable (∀ f ∈ s.resampling a, _))

/-- Before `Clear` of a decoder, its `isExit` and that of `audioPlay` are set. -/
def ClearsExiting (c : Cmd) (F : Obj → Flags) : Prop :=
  ∀ d, c = .clear d → (F (.dec d)).isExit = true ∧ (F .audioPlay).isExit = true

theorem Call.clearsExiting (c : Call) (F : Obj → Flags) : Finds ClearsExiting (fun _ => True) c.program F := by
  cases c with
  | «open» o v a b =>
    simp only [Call.program, closeCmds, openCmds, List.cons_append, List.nil_append, Finds, ClearsExiting, Cmd.flags]
    simp
  | close =>
    simp only [Call.program, closeCmds, List.cons_append, List.nil_append, Finds, ClearsExiting, Cmd.flags]
    simp
  | start sl => cases sl <;> simp [Call.program, startCmds, startThread, Finds, ClearsExiting]
  | setPause | seek => simp [Call.program, pauseCmds, seekEnd, Finds, ClearsExiting]

namespace Player
variable {s s' : Player K}

/-- What keeps `Close` going. -/
structure CloseInv (s : Player K) : Prop where
  holds : Holds s
  exiting : Finds ClearsExiting (fun _ => True) s.ui s.flags
  resample : s.resampleMux = false

theorem CloseInv.step {a : Act} (h : CloseInv s) (ha : PositiveSize L a s) (hs : Steps L s a s') :
    CloseInv s' := by
  refine ⟨h.holds.step hs, hs.finds h.exiting ?_ ?_ ?_, ?_⟩
  · intro o F _
    exact ⟨nofun, nofun, trivial⟩
  · exact fun _ _ _ _ _ _ => nofun
  · intro c _ _
    exact c.clearsExiting _
  · cases hs with
    | demux hd => rw [hd.eq]; exact h.resample
    | @dec d n t pc hd =>
      generalize hpc : s.decW d n = pc₀ at hd
      cases hd with
      | leaked hf hm hr => exact absurd hr (ha _ (by simp [resampling, hpc]))
      | _ => exact h.resample
    | ui hui hc =>
      cases hc with
      | @spawn o => cases o <;> exact h.resample
      | seek hk => rw [hk.eq]; exact h.resample
      | sought hk => rw [hk.eq]; exact h.resample
      | _ => exact h.resample
    | _ => exact h.resample

end Player

/-- In every reachable state in which a command of `Close` other than its first `mux.lock()` cannot go on, and is not a
library call that crashes, it waits for the `packsMutex` of a decoder, and the worker that holds that mutex releases it
by its own steps. -/
theorem close_through (L : FFmpeg K) {s : Player K} (h : (player L).Reach (PositiveSize L) s) {c : Cmd}
    {cs : List Cmd} (hui : s.ui = c :: cs) (hc : c ∈ closeCmds) (hl : c ≠ .lock)
    (hf : ∀ d, c = .flush d → (s.dec d).unopened = false) (hw : s.uiStep L = none) :
    ∃ d n, c = .clear d ∧ s.packsMutex d = some n ∧
      ∃ t, (player L).Run (fun a _ => a = .dec d n) s t ∧ t.packsMutex d = none := by
  have hI : CloseInv s := by
    refine h.inv (I := CloseInv) ?_ fun a s t hI ha hs => hI.step ha (steps hs)
    rintro _ ⟨total, rfl⟩
    exact ⟨⟨fun _ _ _ => rfl, fun _ _ => ⟨nofun, nofun⟩⟩, trivial, rfl⟩
  simp only [uiStep, hui] at hw
  -- all other commands are enabled
  have hcl : ∃ d, c = .clear d := by
    cases c with
    | clear d => exact ⟨d, rfl⟩
    | lock => exact absurd rfl hl
    | flush d => simp [cmdStep, hf d rfl] at hw
    | openDemux | openResample | seek => simp [closeCmds] at hc
    | _ => cases hw
  obtain ⟨d, rfl⟩ := hcl
  rcases hm : s.packsMutex d with _ | n
  · simp [cmdStep, clearDec, hm] at hw
  · obtain ⟨hd, ha⟩ : s.isExit (.dec d) = true ∧ s.isExit .audioPlay = true := by
      have hF := hI.exiting
      rw [hui] at hF
      exact hF.1 d rfl
    exact ⟨d, n, rfl, hm, releases_locked ⟨hd, ha, hI.resample⟩ ((hI.holds.holder d n).mp hm)⟩

set_option maxRecDepth 4000 in
/-- `Close` finds `vDecode` with a packet it has just taken. -/
theorem close_through_busy : ∃ s : Player Unit, s.packsMutex .video = some 0 ∧ s.uiStep silent = none ∧
    ∃ d n, s.packsMutex d = some n ∧
      ∃ t, (player silent).Run (fun a _ => a = .dec d n) s t ∧ t.packsMutex d = none := by
  have hr : ((player silent).execIf (PositiveSize silent) (openStart [⟨0, 40, 40, [1]⟩] .opened ++
      List.replicate 8 (.demux 0) ++ List.replicate 3 (.dec .video 0) ++ .request .close :: List.replicate 6 .ui)
        { demux := { total := 0 } }).map (fun s => (s.ui, s.packsMutex .video)) =
      some ((closeCmds ++ [Cmd.ret .close]).drop 6, some 0) := rfl
  obtain ⟨s, hs, he⟩ := Option.map_eq_some_iff.mp hr
  simp only [Prod.mk.injEq] at he
  obtain ⟨hh, hm⟩ := he
  have hui : s.ui = .clear .video :: (closeCmds ++ [Cmd.ret .close]).drop 7 := hh
  have hw : s.uiStep silent = none := by simp [uiStep, hui, cmdStep, clearDec, hm]
  obtain ⟨d, n, -, hd, ht⟩ := close_through silent ⟨_, ⟨0, rfl⟩, .of_execIf hs⟩ hui (by simp [closeCmds]) (by simp)
    (fun _ h => by cases h) hw
  exact ⟨s, hm, hw, d, n, hd, ht⟩

end XPlayer
