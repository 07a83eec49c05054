import XPlayer.Playback

/-!
# `Seek` and the worker of `aDecode`

While `Seek` waits for the `packsMutex` of a decoder, the worker that holds it goes on. The worker of
`vDecode` always gets to the end of its section. That of `aDecode` waits for space in the queue of
`audioPlay`, which `Seek` has paused: it gets through exactly when the buffers that it has still to store fit
into the queue (`Fits`), and no `Resample` before the last one leaves its mutex locked.
-/

namespace XPlayer
variable {K : Type} {L : FFmpeg K}

/-! ### The buffers that a worker has still to store -/

/-- The number of buffers that `Resample` makes of the frames; none if it comes to wait for its own mutex.
`mux` says whether this mutex has been left locked. -/
def FFResample.due (L : FFmpeg K) (r : FFResample) : Bool → List XData → Option ℕ
  | _, [] => some 0
  | mux, f :: fs =>
    if f.size ≤ 0 then due L r mux fs
    else if mux then none
    else
      match r.resample L 0 f with
      | .refused => due L r false fs
      | .leaked => due L r true fs
      | .pcm _ => (due L r false fs).map (· + 1)

/-- The frames that a worker has still to resample. -/
def DecPc.toResample (L : FFmpeg K) (t : AVMediaType) (c : Option (AVCodecContext K)) : DecPc → List XData
  | .resample x f => f :: ((DecPc.resample x f).rest L t c).1
  | pc => (pc.rest L t c).1

/-- A bound on the steps of a worker to the end of its section, with `N` frames still to be shown. -/
def DecPc.left (N : ℕ) : DecPc → ℕ
  | .send _ => 8 * N + 4
  | .innerExit _ => 8 * N + 3
  | .recv _ => 8 * N + 2
  | .notify .. => 8 * N + 1
  | .resample .. => 8 * N + 7
  | .pcmExit .. => 8 * N + 6
  | .pcmSection .. => 8 * N + 5
  | .drop _ => 1
  | _ => 0

/-- In `Resample` or in the `Update` of `audioPlay`, where only the workers of `aDecode` are. -/
def DecPc.resampling : DecPc → Bool
  | .resample .. | .pcmExit .. | .pcmSection .. => true
  | _ => false

/-- `Resample` does not depend on the handle of the new buffer. -/
theorem FFResample.resample_handle (r : FFResample) (h h' : ℕ) (f : XData) :
    (r.resample L h f = .refused → r.resample L h' f = .refused) ∧
      (r.resample L h f = .leaked → r.resample L h' f = .leaked) ∧
        ∀ y, r.resample L h f = .pcm y → ∃ y', r.resample L h' f = .pcm y' := by
  unfold resample
  split
  · split
    · simp
    · simp only
      split
      · simp
      · split <;> simp
  · simp

/-- The decoder that `Seek` is about to clear. -/
def seekClears : List Cmd → Option Dec
  | .seek _ _ (.clear d) :: _ => some d
  | _ => none

theorem seeking_of_seekClears {cs : List Cmd} {d : Dec} (h : seekClears cs = some d) : seeking cs = true := by
  unfold seekClears at h
  split at h
  · rfl
  · cases h

namespace Player
variable {s s' t : Player K} {n : ℕ}

/-- A `PlayCall` that has tested `isPause` takes one more buffer. -/
def spare (s : Player K) : ℕ := if s.call = some .section then 1 else 0

/-- The number of buffers to store, for a worker at `pc`. -/
def dueAt (L : FFmpeg K) (s : Player K) (pc : DecPc) : Option ℕ :=
  (s.resample.due L s.resampleMux (pc.toResample L (s.dec .audio).type (s.dec .audio).codec)).map (· + pc.pcm.length)

/-- The buffers that the worker `n` of `aDecode` has still to store fit into the queue. -/
def Fits (L : FFmpeg K) (s : Player K) (n : ℕ) : Prop :=
  ∃ k, s.dueAt L (s.decW .audio n) = some k ∧ s.audio.frames.length + k ≤ s.audio.maxFrame + 1 + s.spare

/-- A step of the worker in its section: the buffers in the queue and those still to be stored are the same in
number. -/
theorem Decodes.due {pc pc' : DecPc} (h : Decodes L .audio n s pc t pc') (hl : pc.locked = true)
    (hd : s.isExit (.dec .audio) = false) (ha : s.isExit .audioPlay = false) :
    (t.dueAt L pc').map (· + t.audio.frames.length) = (s.dueAt L pc).map (· + s.audio.frames.length) := by
  have hrest := h.rest hl fun _ _ => hd
  -- a step that only moves the codec
  have hmove : t.resample = s.resample → t.resampleMux = s.resampleMux → t.audio = s.audio → pc.showing = [] →
      pc.toResample L (s.dec .audio).type (s.dec .audio).codec =
        (pc.rest L (s.dec .audio).type (s.dec .audio).codec).1 →
      pc'.toResample L (s.dec .audio).type (t.dec .audio).codec =
        (pc'.rest L (s.dec .audio).type (t.dec .audio).codec).1 →
      pc.pcm = [] → pc'.pcm = [] →
      (t.dueAt L pc').map (· + t.audio.frames.length) = (s.dueAt L pc).map (· + s.audio.frames.length) := by
    intro h1 h2 h3 h4 h5 h6 h7 h8
    unfold dueAt
    rw [h1, h2, h3, hrest.1, h5, h6, h7, h8, hrest.2, h4]
    rfl
  cases h with
  | exit | more | paused | run | shut | empty | pop => cases hl
  | sent | unsent | drained => exact hmove rfl rfl rfl rfl rfl rfl rfl rfl
  | recv => exact hmove rfl rfl rfl rfl rfl rfl rfl rfl
  | innerExit hx => exact absurd (hx.symm.trans hd) Bool.false_ne_true.symm
  | «show» hv => cases hv
  | inner | notify | pcmGo | pcmFull | drop => rfl
  | @noData x f hf =>
    simp only [dueAt, DecPc.toResample, FFResample.due, if_pos hf]
    rfl
  | @refused x f hf hm hr =>
    have hr := (s.resample.resample_handle s.fresh 0 f).1 hr
    simp only [dueAt, DecPc.toResample, FFResample.due, if_neg (not_le.mpr hf), hm, hr]
    rfl
  | @leaked x f hf hm hr =>
    have hr := (s.resample.resample_handle s.fresh 0 f).2.1 hr
    simp only [dueAt, DecPc.toResample, FFResample.due, if_neg (not_le.mpr hf), hm, hr]
    rfl
  | @pcm x f y hf hm hr =>
    obtain ⟨y', hr⟩ := (s.resample.resample_handle s.fresh 0 f).2.2 y hr
    have hs : s.dueAt L (.resample x f) = (s.resample.due L false
        ((DecPc.resample x f).rest L (s.dec .audio).type (s.dec .audio).codec).1).map (· + 1) := by
      simp only [dueAt, DecPc.toResample, FFResample.due, if_neg (not_le.mpr hf), hm, hr, Bool.false_eq_true, ↓reduceIte]
      rw [Option.map_map]
      rfl
    rw [hs, ← hm]
    rfl
  | pcmLost hx => exact absurd (hx.symm.trans ha) Bool.false_ne_true.symm
  | @pcmPush x y hf =>
    let o := s.resample.due L s.resampleMux ((DecPc.pcmSection x y).rest L (s.dec .audio).type (s.dec .audio).codec).1
    show (o.map (· + 0)).map (· + (s.audio.frames ++ [y]).length) = (o.map (· + 1)).map (· + s.audio.frames.length)
    rw [Option.map_map, Option.map_map]
    refine congrArg (fun g : ℕ → ℕ => o.map g) (funext fun k => ?_)
    simp only [Function.comp, List.length_append, List.length_singleton]
    omega

/-! ### The way out of the section -/

theorem Decodes.stays {d : Dec} {pc pc' : DecPc} (h : Decodes L d n s pc t pc') (hl : pc.locked = true)
    (hne : ∀ x, pc ≠ .drop x) : pc'.locked = true := by
  cases h with
  | exit | more | paused | run | shut | empty | pop => cases hl
  | drop => exact absurd rfl (hne _)
  | _ => rfl

theorem Decodes.resampling {pc pc' : DecPc} (h : Decodes L .video n s pc t pc') (hn : pc.resampling = false) :
    pc'.resampling = false := by
  cases h with
  | notify hd => cases hd
  | pcm | pcmGo | pcmFull => cases hn
  | _ => rfl

theorem Decodes.left {d : Dec} {pc pc' : DecPc} (h : Decodes L d n s pc t pc') (hl : pc.locked = true)
    (hd : s.isExit (.dec d) = false)
    (hroom : ∀ x y, pc = .pcmSection x y → s.audio.frames.length ≤ s.audio.maxFrame) :
    pc'.left (pc'.rest L (t.dec d).type (t.dec d).codec).1.length <
      pc.left (pc.rest L (s.dec d).type (s.dec d).codec).1.length := by
  obtain ⟨ht, hr⟩ := h.rest hl fun _ _ => hd
  rw [ht, hr, List.length_append]
  generalize (pc'.rest L (s.dec d).type (t.dec d).codec).1.length = N
  cases h with
  | exit | more | paused | run | shut | empty | pop => cases hl
  | pcmFull hf => exact absurd (hroom _ _ rfl) (not_le.mpr hf)
  | _ =>
    simp only [DecPc.left, DecPc.showing, List.length_nil, List.length_singleton]
    omega

theorem Decodes.queue {d : Dec} {pc pc' : DecPc} (h : Decodes L d n s pc t pc') :
    t.audio.maxFrame = s.audio.maxFrame ∧ t.spare = s.spare := by
  cases h <;> exact ⟨rfl, rfl⟩

theorem dec_enabled {d : Dec} (hl : (s.decW d n).locked = true)
    (hm : ∀ x f, s.decW d n = .resample x f → 0 < f.size → s.resampleMux = false) :
    ∃ t pc, Decodes L d n s (s.decW d n) t pc ∧ s.decStep L d n = some (t.setDecW d n pc) := by
  have he : (s.decStep L d n).isSome := by
    rcases hpc : s.decW d n with _ | _ | _ | _ | x | x | x | ⟨x, f⟩ | ⟨x, f⟩ | ⟨x, y⟩ | ⟨x, y⟩ | x
    case gone | exitTest | pauseTest | lock =>
      rw [hpc] at hl
      cases hl
    case resample =>
      simp only [decStep, hpc]
      split
      · rfl
      · rename_i hf
        rw [if_neg (by simp [hm x f hpc (not_le.mp hf)])]
        split <;> rfl
    case pcmSection =>
      simp only [decStep, hpc]
      split <;> rfl
    all_goals simp [decStep, hpc]
  obtain ⟨s', hs⟩ := Option.isSome_iff_exists.mp he
  obtain ⟨t, pc, hd, rfl⟩ := decodes hs
  exact ⟨t, pc, hd, hs⟩

/-- By steps of the other threads alone, `packsMutex` of `d` is released. -/
def Freed (L : FFmpeg K) (d : Dec) (s : Player K) : Prop :=
  ∃ t, (player L).Run (fun a _ => a ≠ .ui) s t ∧ t.packsMutex d = none

theorem Freed.of_step {d : Dec} {a : Act} (h : Freed L d t) (hs : s.step L a = some t) (ha : a ≠ .ui) : Freed L d s := by
  obtain ⟨u, hu, hm⟩ := h
  exact ⟨u, .cons (a := a) ha hs hu, hm⟩

/-- The worker `n` of `d` is in its section, and can get through. -/
structure Passes (L : FFmpeg K) (d : Dec) (n : ℕ) (s : Player K) : Prop where
  locked : (s.decW d n).locked = true
  dec : s.isExit (.dec d) = false
  audioPlay : s.isExit .audioPlay = false
  video : d = .video → (s.decW d n).resampling = false
  audio : d = .audio → s.Fits L n

/-- The space in the queue is kept. -/
theorem Decodes.fits {pc pc' : DecPc} (h : Decodes L .audio n s pc t pc') (hl : pc.locked = true)
    (hd : s.isExit (.dec .audio) = false) (ha : s.isExit .audioPlay = false) (hpc : s.decW .audio n = pc) :
    (t.setDecW .audio n pc').Fits L n ↔ s.Fits L n := by
  obtain ⟨hmax, hsp⟩ := h.queue
  have hdue := h.due hl hd ha
  unfold Fits
  rw [setDecW_decW, if_pos ⟨rfl, rfl⟩, hpc]
  show (∃ k, t.dueAt L pc' = some k ∧ t.audio.frames.length + k ≤ t.audio.maxFrame + 1 + t.spare) ↔ _
  rw [hmax, hsp]
  rcases h1 : t.dueAt L pc' with _ | k <;> rcases h2 : s.dueAt L pc with _ | k' <;> rw [h1, h2] at hdue
  · simp
  · cases hdue
  · cases hdue
  · have hk : k + t.audio.frames.length = k' + s.audio.frames.length := Option.some.inj hdue
    simp only [Option.some.injEq, exists_eq_left']
    omega

/-- The bound on the steps of the worker `n`. -/
def toGo (L : FFmpeg K) (d : Dec) (n : ℕ) (s : Player K) : ℕ :=
  (s.decW d n).left ((s.decW d n).rest L (s.dec d).type (s.dec d).codec).1.length

/-- A frame that waits for its mutex makes no buffers. -/
theorem due_locked {r : FFResample} {f : XData} {fs : List XData} (hf : 0 < f.size) : r.due L true (f :: fs) = none := by
  simp only [FFResample.due, if_neg (not_le.mpr hf), ↓reduceIte]

theorem Passes.next {d : Dec} (h : Passes L d n s) (hne : ∀ x, s.decW d n ≠ .drop x)
    (hroom : ∀ x y, s.decW d n = .pcmSection x y → s.audio.frames.length ≤ s.audio.maxFrame) :
    ∃ t, s.step L (.dec d n) = some t ∧ Passes L d n t ∧ t.toGo L d n < s.toGo L d n := by
  obtain ⟨t, pc, hd, hs⟩ := dec_enabled (L := L) (s := s) (n := n) h.locked fun x f hpc hf => by
    cases d with
    | video => exact absurd (h.video rfl) (by simp [hpc, DecPc.resampling])
    | audio =>
      obtain ⟨k, hk, -⟩ := h.audio rfl
      by_contra hm
      have hm : s.resampleMux = true := by simpa using hm
      simp only [dueAt, hpc, hm, DecPc.toResample, due_locked hf] at hk
      cases hk
  have hflags : t.flags = s.flags := (congrArg Player.flags hd.eq :)
  have hw : (t.setDecW d n pc).decW d n = pc := by rw [setDecW_decW, if_pos ⟨rfl, rfl⟩]
  refine ⟨_, hs, ⟨?_, (isExit_congr hflags _).trans h.dec, (isExit_congr hflags _).trans h.audioPlay,
    fun hv => ?_, fun ha => ?_⟩, ?_⟩
  · rw [hw]
    exact hd.stays h.locked hne
  · subst hv
    rw [hw]
    exact hd.resampling (h.video rfl)
  · subst ha
    exact (hd.fits h.locked h.dec h.audioPlay rfl).mpr (h.audio rfl)
  · unfold toGo
    rw [hw]
    exact hd.left h.locked h.dec hroom

/-- Where there is no space in the queue, a `PlayCall` is about to make some. -/
theorem Passes.makeRoom {d : Dec} (h : Passes L d n s) : ∃ t, (t = s ∨ s.step L .call = some t) ∧ Passes L d n t ∧
    t.toGo L d n = s.toGo L d n ∧ t.decW = s.decW ∧
      ∀ x y, t.decW d n = .pcmSection x y → t.audio.frames.length ≤ t.audio.maxFrame := by
  by_cases hroom : ∀ x y, s.decW d n = .pcmSection x y → s.audio.frames.length ≤ s.audio.maxFrame
  · exact ⟨s, .inl rfl, h, rfl, rfl, hroom⟩
  · obtain ⟨x, y, hpc, hfull⟩ : ∃ x y, s.decW d n = .pcmSection x y ∧ s.audio.maxFrame < s.audio.frames.length := by
      by_contra hn
      exact hroom fun x y hxy => not_lt.mp fun hlt => hn ⟨x, y, hxy, hlt⟩
    cases d with
    | video => exact absurd (h.video rfl) (by simp [hpc, DecPc.resampling])
    | audio =>
      obtain ⟨k, hk, hle⟩ := h.audio rfl
      have hk1 : 1 ≤ k := by
        rw [hpc] at hk
        obtain ⟨k', -, rfl⟩ := Option.map_eq_some_iff.mp hk
        exact Nat.le_add_left ..
      have hcall : s.call = some .section := by
        by_contra hn
        rw [spare, if_neg hn] at hle
        omega
      rcases hfr : s.audio.frames with _ | ⟨z, rest⟩
      · rw [hfr] at hfull
        cases hfull
      let t : Player K := { s with audio := { s.audio with frames := rest }, call := some (.got z),
                                   log := .play z :: s.log }
      have hst : s.step L .call = some t := by
        simp only [step, stepCall, hcall, callStep, callEvent, hfr, Option.map_some, List.head?_cons, Option.toList_some]
        rfl
      have hlen : s.audio.frames.length = rest.length + 1 := by rw [hfr, List.length_cons]
      have hsp : s.spare = 1 := if_pos hcall
      refine ⟨t, .inr hst, ⟨h.locked, h.dec, h.audioPlay, fun hv => (by cases hv), fun _ => ⟨k, hk, ?_⟩⟩, rfl, rfl,
        fun _ _ _ => ?_⟩
      · show rest.length + k ≤ s.audio.maxFrame + 1 + 0
        omega
      · show rest.length ≤ s.audio.maxFrame
        omega

theorem Passes.freed {d : Dec} (h : Passes L d n s) : Freed L d s := by
  induction hN : s.toGo L d n using Nat.strong_induction_on generalizing s with
  | _ N ih =>
    by_cases hdrop : ∃ x, s.decW d n = .drop x
    · obtain ⟨x, hx⟩ := hdrop
      have hs : s.decStep L d n = some (((s.emit (.drop (.decoder d n) x)).setPacks d none).setDecW d n .exitTest) := by
        simp only [decStep, hx]
      exact ⟨_, .single (a := .dec d n) (fun ha => by cases ha) hs, Function.update_self ..⟩
    · obtain ⟨t, ht, hpt, hgo, hw, hroom⟩ := h.makeRoom
      obtain ⟨u, hu, hpu, hlt⟩ := hpt.next (fun x hx => hdrop ⟨x, hw ▸ hx⟩) hroom
      have hfu : Freed L d t := (ih _ (by omega) hpu rfl).of_step hu fun ha => by cases ha
      rcases ht with rfl | ht
      · exact hfu
      · exact hfu.of_step ht fun ha => by cases ha

/-! ### Nothing else makes space -/

/-- `Seek` waits for the `packsMutex` of `aDecode`, and the worker `n` that holds it does not get through. -/
structure Waits (L : FFmpeg K) (n : ℕ) (s : Player K) : Prop where
  ui : s.ui ≠ []
  holds : Holds s
  video : ∀ m, (s.decW .video m).resampling = false
  locked : (s.decW .audio n).locked = true
  dec : s.isExit (.dec .audio) = false
  audioPlay : s.isExit .audioPlay = false
  paused : s.isPause .audioPlay = true
  length : s.audio.frames.length ≤ s.audio.maxFrame + 1
  full : ¬ s.Fits L n

theorem Fits.congr (hr : t.resample = s.resample) (hm : t.resampleMux = s.resampleMux)
    (hd : (t.dec .audio).codec = (s.dec .audio).codec) (hw : t.decW .audio n = s.decW .audio n) (ha : t.audio = s.audio)
    (hc : t.spare = s.spare) : t.Fits L n ↔ s.Fits L n := by
  unfold Fits dueAt FFDecode.type
  rw [hr, hm, hd, hw, ha, hc]

/-- What a worker leaves alone outside of `Resample` and `Update`. -/
theorem Decodes.apart {d : Dec} {m : ℕ} {pc pc' : DecPc} (h : Decodes L d m s pc t pc') (hn : pc.resampling = false) :
    t.resampleMux = s.resampleMux ∧ t.audio = s.audio := by
  cases h with
  | leaked | pcmPush => cases hn
  | _ => exact ⟨rfl, rfl⟩

/-- Without `packsMutex`, a worker only tests. -/
theorem Decodes.tests {d : Dec} {m : ℕ} {pc pc' : DecPc} (h : Decodes L d m s pc t pc') (hl : pc.locked = false)
    (hm : s.packsMutex d ≠ none) : t = s := by
  cases h with
  | exit | more | paused | run | shut | empty => rfl
  | pop h => exact absurd h hm
  | _ => cases hl

theorem Decodes.frames_le {d : Dec} {m : ℕ} {pc pc' : DecPc} (h : Decodes L d m s pc t pc')
    (hl : s.audio.frames.length ≤ s.audio.maxFrame + 1) : t.audio.frames.length ≤ t.audio.maxFrame + 1 := by
  cases h with
  | @pcmPush x y hf =>
    show (s.audio.frames ++ [y]).length ≤ s.audio.maxFrame + 1
    rw [List.length_append, List.length_singleton]
    omega
  | _ => exact hl

theorem callStep_length {x p : Bool} {a : IAudioPlay} (pc : CallPc) (h : a.frames.length ≤ a.maxFrame + 1) :
    (callStep x p a pc).1.frames.length ≤ (callStep x p a pc).1.maxFrame + 1 := by
  cases pc with
  | «section» =>
    rcases hf : a.frames with _ | ⟨z, rest⟩
    · simp [callStep, hf]
    · simp only [callStep, hf]
      rw [hf, List.length_cons] at h
      omega
  | _ => exact h

/-- A `PlayCall` of a paused player takes a buffer only if it has tested `isPause` before. -/
theorem callStep_paused (a : IAudioPlay) (pc : CallPc) :
    (callStep false true a pc).1.maxFrame = a.maxFrame ∧ (callStep false true a pc).2 ≠ some .section ∧
      a.frames.length ≤ (callStep false true a pc).1.frames.length + if some pc = some .section then 1 else 0 := by
  cases pc with
  | «section» => rcases hf : a.frames with _ | ⟨z, rest⟩ <;> simp [callStep, hf]
  | got x => refine ⟨rfl, ?_, by simp [callStep]⟩; by_cases hx : x.size ≤ 0 <;> simp [callStep, hx]
  | _ => simp [callStep]

/-- The flags and the commands of the controller are kept by all threads. -/
theorem Waits.keep (h : Waits L n s) (hH : Holds t) (hui : t.ui = s.ui) (hF : t.flags = s.flags)
    (hv : ∀ m, (t.decW .video m).resampling = false) (hl : (t.decW .audio n).locked = true)
    (hlen : t.audio.frames.length ≤ t.audio.maxFrame + 1) (hfull : ¬ t.Fits L n) : Waits L n t :=
  ⟨hui ▸ h.ui, hH, hv, hl, (isExit_congr hF _).trans h.dec, (isExit_congr hF _).trans h.audioPlay,
    (isPause_congr hF _).trans h.paused, hlen, hfull⟩

theorem Waits.congr (h : Waits L n s) (hH : Holds t) (hui : t.ui = s.ui) (hF : t.flags = s.flags)
    (hw : t.decW = s.decW) (hr : t.resample = s.resample) (hm : t.resampleMux = s.resampleMux)
    (hd : (t.dec .audio).codec = (s.dec .audio).codec) (ha : t.audio = s.audio) (hc : t.spare = s.spare) :
    Waits L n t := by
  refine h.keep hH hui hF ?_ ?_ ?_ fun hf => h.full ((Fits.congr hr hm hd (by rw [hw]) ha hc).mp hf)
  · rw [hw]
    exact h.video
  · rw [hw]
    exact h.locked
  · rw [ha]
    exact h.length

theorem Waits.call (h : Waits L n s) {pc : CallPc} (hpc : s.call = some pc) : Waits L n
    { s with audio := (callStep (s.isExit .audioPlay) (s.isPause .audioPlay) s.audio pc).1,
             call := (callStep (s.isExit .audioPlay) (s.isPause .audioPlay) s.audio pc).2,
             log := (callEvent s.audio pc).toList ++ s.log } := by
  refine h.keep (h.holds.of_eq rfl rfl rfl) rfl rfl h.video h.locked (callStep_length pc h.length) ?_
  rw [h.paused, h.audioPlay]
  obtain ⟨hmax, hnext, hlen⟩ := callStep_paused s.audio pc
  rintro ⟨k, hk, hle⟩
  refine h.full ⟨k, hk, ?_⟩
  replace hle : (callStep false true s.audio pc).1.frames.length + k ≤ s.audio.maxFrame + 1 := by
    simpa only [spare, if_neg hnext, hmax] using hle
  rw [spare, hpc]
  omega

/-- A step of a worker of `aDecode`. Only the one in its section does more than to test. -/
theorem Waits.dec_audio (h : Waits L n s) {m : ℕ} {pc : DecPc} (hd : Decodes L .audio m s (s.decW .audio m) t pc) :
    Waits L n (t.setDecW .audio m pc) := by
  have hH : Holds (t.setDecW .audio m pc) := h.holds.dec hd
  have hui : t.ui = s.ui := (congrArg Player.ui hd.eq :)
  have hF : t.flags = s.flags := (congrArg Player.flags hd.eq :)
  have hw : t.decW = s.decW := (congrArg Player.decW hd.eq :)
  have hv : ∀ m', ((t.setDecW .audio m pc).decW .video m').resampling = false := fun m' => by
    rw [setDecW_decW, if_neg (fun hx => by cases hx.1), hw]
    exact h.video m'
  have hmux : s.packsMutex .audio = some n := (h.holds.holder .audio n).mpr h.locked
  by_cases hm : n = m
  · subst hm
    have hfull : ¬ (t.setDecW .audio n pc).Fits L n := fun hf =>
      h.full ((hd.fits h.locked h.dec h.audioPlay rfl).mp hf)
    refine h.keep hH hui hF hv ?_ (hd.frames_le h.length) hfull
    rw [setDecW_decW, if_pos ⟨rfl, rfl⟩]
    refine hd.stays h.locked fun x hx => h.full ⟨0, ?_, by have := h.length; omega⟩
    rw [dueAt, hx]
    rfl
  · have hl : (s.decW .audio m).locked = false := by
      rcases hl : (s.decW .audio m).locked with _ | _
      · rfl
      · exact absurd (Option.some.inj (hmux.symm.trans ((h.holds.holder .audio m).mpr hl))) hm
    have ht : t = s := hd.tests hl (by rw [hmux]; exact nofun)
    subst ht
    have hn : (t.setDecW .audio m pc).decW .audio n = t.decW .audio n := by
      rw [setDecW_decW, if_neg fun hx => hm hx.2]
    have hfits : (t.setDecW .audio m pc).Fits L n ↔ t.Fits L n := Fits.congr rfl rfl rfl hn rfl rfl
    refine h.keep hH rfl rfl hv ?_ h.length fun hf => h.full (hfits.mp hf)
    rw [hn]
    exact h.locked

theorem Waits.dec_video (h : Waits L n s) {m : ℕ} {pc : DecPc} (hd : Decodes L .video m s (s.decW .video m) t pc) :
    Waits L n (t.setDecW .video m pc) := by
  have hw : t.decW = s.decW := (congrArg Player.decW hd.eq :)
  have hr : t.resample = s.resample := (congrArg Player.resample hd.eq :)
  have hc : t.call = s.call := (congrArg Player.call hd.eq :)
  obtain ⟨hm, ha⟩ := hd.apart (h.video m)
  have hn : (t.setDecW .video m pc).decW .audio n = s.decW .audio n := by
    rw [setDecW_decW, if_neg (fun hx => by cases hx.1), hw]
  have hs : t.spare = s.spare := hd.queue.2
  refine h.keep (h.holds.dec hd) (congrArg Player.ui hd.eq :) (congrArg Player.flags hd.eq :) (fun m' => ?_) ?_ ?_
    fun hf => h.full ((Fits.congr hr hm (congrArg FFDecode.codec (hd.dec_other nofun)) hn ha hs).mp hf)
  · rw [setDecW_decW]
    split
    · rename_i hd'
      obtain ⟨-, rfl⟩ := hd'
      exact hd.resampling (h.video m')
    · rw [hw]
      exact h.video m'
  · rw [hn]
    exact h.locked
  · show t.audio.frames.length ≤ t.audio.maxFrame + 1
    rw [ha]
    exact h.length

theorem Waits.step (h : Waits L n s) {a : Act} (ha : a ≠ .ui) (hs : Steps L s a t) : Waits L n t := by
  have hH := h.holds.step hs
  cases hs with
  | @demux m t pc hd =>
    have he := hd.eq
    exact h.congr hH (congrArg Player.ui he :) (congrArg Player.flags he :) (congrArg Player.decW he :)
      (congrArg Player.resample he :) (congrArg Player.resampleMux he :)
      (congrArg FFDecode.codec (hd.dec_fields .audio) :) (congrArg Player.audio he :)
      (congrArg Player.spare he :)
  | @dec d m t pc hd =>
    cases d with
    | video => exact h.dec_video hd
    | audio => exact h.dec_audio hd
  | syncExit | syncMore => exact h.congr hH rfl rfl rfl rfl rfl rfl rfl rfl
  | sync =>
    have hd := s.setDec_video_audio { s.dec .video with synPts := s.audio.pts }
    exact h.congr hH rfl rfl rfl rfl rfl (congrArg FFDecode.codec hd :) rfl rfl
  | device hc =>
    refine h.congr hH rfl rfl rfl rfl rfl rfl rfl ?_
    show (if some CallPc.exitTest = some .section then 1 else 0) = if s.call = some .section then 1 else 0
    rw [hc]
    rfl
  | call hc => exact h.call hc
  | ui => exact absurd rfl ha
  | request hui => exact absurd hui h.ui

theorem Seeks.frames_le {pos : ℚ} {f : SeekFrame} {pc : SeekPc} {r : Option SeekPc} (h : Seeks L pos f s pc t r)
    (hl : s.audio.frames.length ≤ s.audio.maxFrame + 1) : t.audio.frames.length ≤ t.audio.maxFrame + 1 := by
  cases h with
  | clearFrames => exact Nat.zero_le _
  | nothing | early | wanted | picture =>
    rw [readBy_eq]
    exact hl
  | update hu | done hu =>
    rw [updates_eq hu]
    exact hl
  | _ => exact hl

/-- What the state of the workers and the queue of `audioPlay` are whatever the calls. -/
structure Bounded (s : Player K) : Prop where
  holds : Holds s
  video : ∀ m, (s.decW .video m).resampling = false
  length : s.audio.frames.length ≤ s.audio.maxFrame + 1
  paused : Finds SeekPaused (fun _ => True) s.ui s.flags

/-- Of the steps of the controller, only `Start` and the clear of the queue are not trivial. -/
theorem Bounded.command (h : Bounded s) {c : Cmd} {cs cs' : List Cmd} (hui : s.ui = c :: cs)
    (hc : Commands L cs s c t cs') : Bounded { t with ui := cs' } := by
  have hs : Steps L s .ui { t with ui := cs' } := .ui hui hc
  refine ⟨h.holds.step hs, fun m => ?_, ?_, hs.seek_paused h.paused⟩
  · show (t.decW .video m).resampling = false
    cases hc with
    | @spawn o =>
      cases o with
      | dec d =>
        show ((s.setDecW d (s.decN d) .exitTest).decW .video m).resampling = false
        rw [setDecW_decW]
        split
        · rfl
        · exact h.video m
      | _ => exact h.video m
    | seek hk | sought hk =>
      rw [hk.eq]
      exact h.video m
    | _ => exact h.video m
  · show t.audio.frames.length ≤ t.audio.maxFrame + 1
    cases hc with
    | clearFrames => exact Nat.zero_le _
    | @spawn o => cases o <;> exact h.length
    | seek hk | sought hk => exact hk.frames_le h.length
    | _ => exact h.length

theorem Bounded.step (h : Bounded s) {a : Act} (hs : Steps L s a t) : Bounded t := by
  have hH := h.holds.step hs
  have hp := hs.seek_paused h.paused
  cases hs with
  | @demux m t pc hd =>
    have hw : t.decW = s.decW := (congrArg Player.decW hd.eq :)
    have ha : t.audio = s.audio := (congrArg Player.audio hd.eq :)
    refine ⟨hH, ?_, ?_, hp⟩
    · show ∀ m, (t.decW .video m).resampling = false
      rw [hw]
      exact h.video
    · show t.audio.frames.length ≤ t.audio.maxFrame + 1
      rw [ha]
      exact h.length
  | @dec d m t pc hd =>
    refine ⟨hH, fun m' => ?_, hd.frames_le h.length, hp⟩
    rw [setDecW_decW, (congrArg Player.decW hd.eq :)]
    split
    · rename_i hd'
      obtain ⟨rfl, rfl⟩ := hd'
      exact hd.resampling (h.video m')
    · exact h.video m'
  | call hc => exact ⟨hH, h.video, callStep_length _ h.length, hp⟩
  | ui hui hc => exact h.command hui hc
  | _ => exact ⟨hH, h.video, h.length, hp⟩

theorem reach_bounded (h : (player L).Reach Sys.any s) : Bounded s := by
  refine h.inv (I := Bounded) ?_ fun a s t hI _ hs => hI.step (steps hs)
  rintro _ ⟨total, rfl⟩
  refine ⟨⟨fun _ _ _ => rfl, fun d n => ⟨fun h => ?_, fun h => ?_⟩⟩, fun _ => rfl, Nat.zero_le _, trivial⟩
  · cases h
  · cases h

theorem Waits.not_freed (h : Waits L n s) : ¬ Freed L .audio s := by
  rintro ⟨t, ht, hm⟩
  have hw : Waits L n t := ht.inv (I := Waits L n) h fun a s t hI ha hs => hI.step ha (steps hs)
  rw [(hw.holds.holder .audio n).mpr hw.locked] at hm
  cases hm

theorem Bounded.waits (h : Bounded s) (hui : seekClears s.ui = some .audio) (hm : s.packsMutex .audio = some n)
    (hd : s.isExit (.dec .audio) = false) (ha : s.isExit .audioPlay = false) (hf : ¬ s.Fits L n) : Waits L n s where
  ui he := by
    rw [he] at hui
    cases hui
  holds := h.holds
  video := h.video
  locked := (h.holds.holder .audio n).mp hm
  dec := hd
  audioPlay := ha
  paused := Finds.seek_paused h.paused (seeking_of_seekClears hui) .audioPlay
  length := h.length
  full := hf

end Player

open Player in
/-- While `Seek` waits for the `packsMutex` of `d`, the worker `n` that holds it can get to its release exactly
when `d` is `vDecode`, or the buffers that the worker has still to store fit into the queue of `audioPlay` and no
`Resample` before the last of them leaves its mutex locked. -/
theorem seek_clear_freed (L : FFmpeg K) {s : Player K} (h : (player L).Reach Sys.any s) {d : Dec}
    (hui : seekClears s.ui = some d) {n : ℕ} (hm : s.packsMutex d = some n) (hd : s.isExit (.dec d) = false)
    (ha : s.isExit .audioPlay = false) : s.Freed L d ↔ (d = .audio → s.Fits L n) := by
  have hB := reach_bounded h
  refine ⟨fun hf hda => ?_, fun hf => ?_⟩
  · subst hda
    by_contra hfull
    exact (hB.waits hui hm hd ha hfull).not_freed hf
  · refine Passes.freed (n := n) ⟨(hB.holds.holder d n).mp hm, hd, ha, fun hv => ?_, hf⟩
    subst hv
    exact hB.video n

/-- A file with one audio packet of `k` frames; `aDecode` makes `m` steps before `Seek` begins. -/
def seekWhile (k m : ℕ) : List Act :=
  openStart [⟨1, 0, 0, List.replicate k 0⟩] .opened ++ List.replicate 8 (.demux 0) ++
    List.replicate m (.dec .audio 0) ++ .request (.seek 0 fun _ _ => (0, [])) :: List.replicate 10 .ui

set_option maxRecDepth 4000 in
/-- `Seek` begins while `aDecode` has one of two buffers stored. -/
theorem seek_clear_freed_two : ∃ s : Player (List AVFrame), seekClears s.ui = some .audio ∧
    s.packsMutex .audio = some 0 ∧ s.Freed bytewise .audio := by
  have hr : ((player bytewise).exec (seekWhile 2 10) { demux := { total := 0 } }).map (fun s =>
      decide (seekClears s.ui = some .audio ∧ s.packsMutex .audio = some 0 ∧ s.isExit (.dec .audio) = false ∧
        s.isExit .audioPlay = false ∧ s.dueAt bytewise (s.decW .audio 0) = some 1 ∧
          s.audio.frames.length + 1 ≤ s.audio.maxFrame + 1 + s.spare)) = some true := by decide +kernel
  obtain ⟨s, hs, he⟩ := Option.map_eq_some_iff.mp hr
  obtain ⟨hui, hm, hd, ha, hk, hle⟩ := of_decide_eq_true he
  have hreach : (player bytewise).Reach Sys.any s := ⟨_, ⟨0, rfl⟩, .of_exec_any hs⟩
  exact ⟨s, hui, hm, (seek_clear_freed bytewise hreach hui hm hd ha).mpr fun _ => ⟨1, hk, hle⟩⟩

set_option maxRecDepth 4000 in
/-- `Seek` begins while `aDecode` waits for space for the last of 102 buffers. -/
theorem seek_clear_stuck : ¬ ∀ s : Player (List AVFrame), (player bytewise).Reach Sys.any s →
    ∀ d, seekClears s.ui = some d → ∀ n, s.packsMutex d = some n → s.isExit (.dec d) = false →
      s.isExit .audioPlay = false → s.Freed bytewise d := by
  intro h
  have hr : ((player bytewise).exec (seekWhile 102 615) { demux := { total := 0 } }).map (fun s =>
      decide (seekClears s.ui = some .audio ∧ s.packsMutex .audio = some 0 ∧ s.isExit (.dec .audio) = false ∧
        s.isExit .audioPlay = false ∧ s.dueAt bytewise (s.decW .audio 0) = some 1 ∧
          s.audio.maxFrame + 1 + s.spare < s.audio.frames.length + 1)) = some true := by decide +kernel
  obtain ⟨s, hs, he⟩ := Option.map_eq_some_iff.mp hr
  obtain ⟨hui, hm, hd, ha, hk, hlt⟩ := of_decide_eq_true he
  have hreach : (player bytewise).Reach Sys.any s := ⟨_, ⟨0, rfl⟩, .of_exec_any hs⟩
  have hfull : ¬ s.Fits bytewise 0 := by
    rintro ⟨k, hk', hle⟩
    cases hk.symm.trans hk'
    omega
  exact ((Player.reach_bounded hreach).waits hui hm hd ha hfull).not_freed (h s hreach .audio hui 0 hm hd ha)

end XPlayer
