import XPlayer.Lib.History

/-!
# The OpenSL ES objects of `SLAudioPlay`

`StartPlay` and `Close` on the static variables of `SLAudioPlay.cpp`: the engine, the mixer and the player with its
interfaces, for every outcome of the library calls. The variables are shared by all `SLAudioPlay` of the process, so
an object remembers which of them (`ι`) created it. `log` has the calls on the objects, newest first.
-/

namespace XPlayer

inductive SLKind
  | engine
  | outputMix
  | audioPlayer
  deriving DecidableEq

/-- An object, with the `SLAudioPlay` that created it. -/
structure SLObject (ι : Type) where
  owner : ι
  kind : SLKind
  id : ℕ
  deriving DecidableEq

inductive SLCall
  | create
  | setPlayState (playing : Bool)
  | clear
  | registerCallback
  | enqueue
  | destroy
  deriving DecidableEq

/-- The static variables; an interface is given by the object that it is of. -/
structure SLStatics (ι : Type) where
  engineSL : Option (SLObject ι) := none
  eng : Option (SLObject ι) := none
  mix : Option (SLObject ι) := none
  player : Option (SLObject ι) := none
  iplayer : Option (SLObject ι) := none
  pcmQue : Option (SLObject ι) := none
  next : ℕ := 0
  log : List (SLObject ι × SLCall) := []
  deriving DecidableEq

/-- Whether the library calls in `StartPlay` succeed. -/
structure SLOutcomes where
  slCreateEngine : Bool := true
  realizeEngine : Bool := true
  /-- `GetInterface` for `SL_IID_ENGINE`. -/
  engineItf : Bool := true
  createOutputMix : Bool := true
  realizeMix : Bool := true
  createAudioPlayer : Bool := true
  /-- `GetInterface` for `SL_IID_PLAY`. -/
  playItf : Bool := true
  /-- `GetInterface` for `SL_IID_BUFFERQUEUE`. -/
  queueItf : Bool := true

namespace SLStatics
open History (Grows grows_append)
variable {ι : Type}

/-- The calls of `Close`. -/
def closeCalls (s : SLStatics ι) : List (SLObject ι × SLCall) :=
  s.engineSL.toList.map (·, .destroy) ++ s.mix.toList.map (·, .destroy) ++ s.player.toList.map (·, .destroy) ++
    s.pcmQue.toList.map (·, .clear) ++ s.iplayer.toList.map (·, .setPlayState false)

def close (s : SLStatics ι) : SLStatics ι := { next := s.next, log := s.closeCalls ++ s.log }

/-- A new object of `i`. -/
def create (i : ι) (k : SLKind) (s : SLStatics ι) : SLObject ι × SLStatics ι :=
  let x : SLObject ι := ⟨i, k, s.next⟩
  (x, { s with next := s.next + 1, log := (x, .create) :: s.log })

/-- `eng = CreateSL()`, and whether `eng` is not null. -/
def createSL (i : ι) (o : SLOutcomes) (s : SLStatics ι) : Bool × SLStatics ι :=
  if o.slCreateEngine = false then (false, { s with eng := none })
  else
    let (x, s) := s.create i .engine
    let s := { s with engineSL := some x, eng := none }
    if o.realizeEngine = false then (false, s)
    else if o.engineItf = false then (false, s)
    else (true, { s with eng := some x })

/-- `StartPlay` of `i` from the creation of the mixer on. -/
def createPlayer (i : ι) (o : SLOutcomes) (s : SLStatics ι) : Bool × SLStatics ι :=
  if o.createOutputMix = false then (false, s)
  else
    let (m, s) := s.create i .outputMix
    let s := { s with mix := some m }
    if o.realizeMix = false then (false, s)
    else if o.createAudioPlayer = false then (false, s)
    else
      -- the result of `Realize` is not tested
      let (x, s) := s.create i .audioPlayer
      let s := { s with player := some x }
      if o.playItf = false then (false, s)
      else
        let s := { s with iplayer := some x }
        if o.queueItf = false then (false, s)
        else (true, { s with pcmQue := some x,
                             log := (x, .enqueue) :: (x, .setPlayState true) :: (x, .registerCallback) :: s.log })

/-- `StartPlay` of `i`. -/
def startPlay (i : ι) (o : SLOutcomes) (s : SLStatics ι) : Bool × SLStatics ι :=
  match s.close.createSL i o with
  | (false, s) => (false, s)
  | (true, s) => s.createPlayer i o

/-- The objects behind the variables. -/
def handles (s : SLStatics ι) : List (SLObject ι) :=
  s.engineSL.toList ++ s.eng.toList ++ s.mix.toList ++ s.player.toList ++ s.iplayer.toList ++ s.pcmQue.toList

/-! ### Whose objects are called -/

/-- All objects behind the variables are of the player whose engine it is. -/
def Tied (s : SLStatics ι) : Prop := ∀ x ∈ s.handles, ∃ e ∈ s.engineSL, x.owner = e.owner

/-- From `s` to `t` only objects of `i` were called. -/
def Calls (i : ι) (s t : SLStatics ι) : Prop := Grows (fun c => c.1.owner = i) s.log t.log

variable {i : ι} {o : SLOutcomes} {s : SLStatics ι}

/-- The variables that are set are set to objects of `i`, the engine first. -/
def Of (i : ι) (s : SLStatics ι) : Prop := (s.engineSL = none → s.handles = []) ∧ ∀ x ∈ s.handles, x.owner = i

theorem Of.tied (h : Of i s) : s.Tied := by
  intro x hx
  rcases he : s.engineSL with _ | e
  · rw [h.1 he] at hx
    cases hx
  · exact ⟨e, rfl, (h.2 x hx).trans (h.2 e (by simp [handles, he])).symm⟩

theorem createSL_of (hs : s.handles = []) : Of i (s.createSL i o).2 ∧ Calls i s (s.createSL i o).2 ∧
    ((s.createSL i o).1 = true → (s.createSL i o).2.engineSL ≠ none) := by
  simp only [handles, List.append_eq_nil_iff, Option.toList_eq_nil_iff] at hs
  obtain ⟨⟨⟨⟨⟨h1, h2⟩, h3⟩, h4⟩, h5⟩, h6⟩ := hs
  unfold createSL
  split
  · exact ⟨⟨fun _ => by simp [handles, h1, h3, h4, h5, h6], by simp [handles, h1, h3, h4, h5, h6]⟩,
      ⟨[], rfl, by simp⟩, nofun⟩
  · simp only [create]
    split
    · exact ⟨⟨nofun, by simp [handles, h3, h4, h5, h6]⟩, ⟨[_], rfl, by simp⟩, nofun⟩
    · split
      · exact ⟨⟨nofun, by simp [handles, h3, h4, h5, h6]⟩, ⟨[_], rfl, by simp⟩, nofun⟩
      · exact ⟨⟨nofun, by simp [handles, h3, h4, h5, h6]⟩, ⟨[_], rfl, by simp⟩, nofun⟩

theorem createPlayer_of (hs : Of i s) (he : s.engineSL ≠ none) :
    Of i (s.createPlayer i o).2 ∧ Calls i s (s.createPlayer i o).2 := by
  obtain ⟨-, hs⟩ := hs
  simp only [handles, List.forall_mem_append, Option.mem_toList] at hs
  obtain ⟨⟨⟨⟨⟨h1, h2⟩, h3⟩, h4⟩, h5⟩, h6⟩ := hs
  have hof : ∀ t : SLStatics ι, t.engineSL = s.engineSL → t.eng = s.eng → (∀ x ∈ t.mix, x.owner = i) →
      (∀ x ∈ t.player, x.owner = i) → (∀ x ∈ t.iplayer, x.owner = i) → (∀ x ∈ t.pcmQue, x.owner = i) → Of i t := by
    intro t ht1 ht2 ht3 ht4 ht5 ht6
    refine ⟨fun hn => absurd (ht1.symm.trans hn) he, ?_⟩
    simp only [handles, List.forall_mem_append, Option.mem_toList]
    rw [ht1, ht2]
    exact ⟨⟨⟨⟨⟨h1, h2⟩, ht3⟩, ht4⟩, ht5⟩, ht6⟩
  have hnew : ∀ (k : SLKind) (n : ℕ), ∀ x ∈ some (SLObject.mk i k n), x.owner = i := by
    rintro k n _ ⟨⟩
    rfl
  unfold createPlayer
  split
  · exact ⟨hof _ rfl rfl h3 h4 h5 h6, ⟨[], rfl, by simp⟩⟩
  · simp only [create]
    split
    · exact ⟨hof _ rfl rfl (hnew _ _) h4 h5 h6, ⟨[_], rfl, by simp⟩⟩
    · split
      · exact ⟨hof _ rfl rfl (hnew _ _) h4 h5 h6, ⟨[_], rfl, by simp⟩⟩
      · split
        · exact ⟨hof _ rfl rfl (hnew _ _) (hnew _ _) h5 h6, ⟨[_, _], rfl, by simp⟩⟩
        · split
          · exact ⟨hof _ rfl rfl (hnew _ _) (hnew _ _) (hnew _ _) h6, ⟨[_, _], rfl, by simp⟩⟩
          · exact ⟨hof _ rfl rfl (hnew _ _) (hnew _ _) (hnew _ _) (hnew _ _), ⟨[_, _, _, _, _], rfl, by simp⟩⟩

theorem close_tied (s : SLStatics ι) : s.close.Tied := by
  intro x hx
  cases hx

/-- After `Close`, `StartPlay` of `i` creates and calls only objects of `i`. -/
theorem startPlay_of (i : ι) (o : SLOutcomes) (s : SLStatics ι) :
    (s.startPlay i o).2.Tied ∧ Calls i s.close (s.startPlay i o).2 := by
  obtain ⟨hof, hc, he⟩ := createSL_of (i := i) (o := o) (s := s.close) rfl
  unfold startPlay
  split
  · rename_i t ht
    rw [ht] at hof hc
    exact ⟨hof.tied, hc⟩
  · rename_i t ht
    rw [ht] at hof hc he
    obtain ⟨hof', hc'⟩ := createPlayer_of (o := o) hof (he rfl)
    exact ⟨hof'.tied, hc.trans hc'⟩

/-- `Close` calls only objects of `i` if and only if there is no engine of another player. -/
theorem close_calls (h : s.Tied) (i : ι) : Calls i s s.close ↔ ∀ e ∈ s.engineSL, e.owner = i := by
  refine grows_append.trans ⟨fun hc e he => hc (e, .destroy) (by simp [closeCalls, Option.mem_def.mp he]), ?_⟩
  intro he c hc
  have hx : c.1 ∈ s.handles := by
    simp only [closeCalls, List.mem_append, List.mem_map] at hc
    simp only [handles, List.mem_append]
    rcases hc with (((⟨x, hx, rfl⟩ | ⟨x, hx, rfl⟩) | ⟨x, hx, rfl⟩) | ⟨x, hx, rfl⟩) | ⟨x, hx, rfl⟩ <;> simp [hx]
  obtain ⟨e, hm, ho⟩ := h _ hx
  exact ho.trans (he e hm)

end SLStatics

end XPlayer
