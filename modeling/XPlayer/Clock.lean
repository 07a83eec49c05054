import XPlayer.CloseClears

/-!
# The sync clock

`IPlayer::Main` copies `audioPlay->pts`, the position that `GetData` stored last, to `synPts` of the video
decoder. `Clear` resets `synPts`, but nothing resets `audioPlay->pts`: after a `Seek` or an `Open` it is
the old position until `GetData` has handed out a new buffer. The stored values are fresh in every run
whose stores meet `Refreshed` (`clock_fresh`).

The proof is about the events of the clock in the history: what `GetData` has handed out gives the stored
position (`Timed`).
-/

namespace XPlayer
variable {K : Type} {L : FFmpeg K}

/-! ### The events of the clock -/

/-- The events of the clock: buffers handed out, positions stored, and returns. -/
def Event.clock : Event → Option Event
  | .play x => some (.play x)
  | .synced v => some (.synced v)
  | .returned k b => some (.returned k b)
  | _ => none

def Event.played : Event → Option XData
  | .play x => some x
  | _ => none

/-- A `Seek` or an `Open` returns. -/
def Event.reopens : Event → Bool
  | .returned .open _ | .returned .seek _ => true
  | _ => false

/-- What `GetData` has handed out since the last return of a `Seek` or an `Open`, newest first. -/
def handedOut (log : List Event) : List XData :=
  (log.takeWhile fun e => !e.reopens).filterMap Event.played

/-- A value that is stored after a `Seek` or an `Open` has returned is zero or the position of a buffer
that was handed out since. -/
def ClockFresh (log : List Event) : Prop :=
  ∀ v new k b old, .synced v :: new ++ .returned k b :: old <:+ log → k = .open ∨ k = .seek →
    v = 0 ∨ ∃ x, .play x ∈ new ∧ x.pts = v

theorem Event.clock_eq {e e' : Event} (h : e.clock = some e') : e' = e := by
  cases e <;> cases h <;> rfl

theorem handedOut_clock (log : List Event) : handedOut (log.filterMap Event.clock) = handedOut log := by
  induction log with
  | nil => rfl
  | cons e log ih =>
    rcases hc : e.clock with _ | e'
    · rw [List.filterMap_cons_none hc, ih]
      cases e <;> first | rfl | cases hc
    · obtain rfl := Event.clock_eq hc
      rw [List.filterMap_cons_some hc]
      unfold handedOut at *
      by_cases hr : e'.reopens = true
      · rw [List.takeWhile_cons_of_neg (by simp [hr]), List.takeWhile_cons_of_neg (by simp [hr])]
      · rw [List.takeWhile_cons_of_pos (by simp [hr]), List.takeWhile_cons_of_pos (by simp [hr])]
        rw [List.filterMap_cons, List.filterMap_cons, ih]

/-- What is handed out after the last return comes after every return. -/
theorem handedOut_mem {new old : List Event} {e : Event} (he : e.reopens = true) {x : XData}
    (hx : x ∈ handedOut (new ++ e :: old)) : .play x ∈ new := by
  induction new with
  | nil =>
    simp only [handedOut, List.nil_append] at hx
    rw [List.takeWhile_cons_of_neg (by simp [he])] at hx
    cases hx
  | cons a new ih =>
    unfold handedOut at ih hx
    rw [List.cons_append] at hx
    by_cases hr : a.reopens = true
    · rw [List.takeWhile_cons_of_neg (by simp [hr])] at hx
      cases hx
    · rw [List.takeWhile_cons_of_pos (by simp [hr])] at hx
      obtain ⟨b, hb, hp⟩ := List.mem_filterMap.mp hx
      rcases List.mem_cons.mp hb with rfl | hb
      · cases b <;> cases hp
        exact List.mem_cons_self
      · exact List.mem_cons_of_mem _ (ih (List.mem_filterMap.mpr ⟨b, hb, hp⟩))

theorem handedOut_prefix (log : List Event) : handedOut log <+: log.filterMap Event.played :=
  (List.takeWhile_prefix _).filterMap _

/-- The history of the clock is as good as the whole one. -/
theorem ClockFresh.of_clock {log : List Event} (h : ClockFresh (log.filterMap Event.clock)) :
    ClockFresh log := by
  intro v new k b old hs hk
  have hs := hs.filterMap Event.clock
  rw [List.cons_append, List.filterMap_cons_some (show (Event.synced v).clock = _ from rfl),
    List.filterMap_append, List.filterMap_cons_some (show (Event.returned k b).clock = _ from rfl)] at hs
  rcases h v _ k b _ hs hk with hv | ⟨x, hx, he⟩
  · exact .inl hv
  · obtain ⟨e, hm, hc⟩ := List.mem_filterMap.mp hx
    obtain rfl := Event.clock_eq hc
    exact .inr ⟨x, hm, he⟩

theorem ClockFresh.cons {log : List Event} {e : Event} (h : ClockFresh log) (he : ∀ v, e ≠ .synced v) :
    ClockFresh (e :: log) := by
  intro v new k b old hs
  rcases List.suffix_cons_iff.mp hs with hs | hs
  · exact absurd (List.cons.inj hs).1.symm (he v)
  · exact h v new k b old hs

theorem ClockFresh.synced {log : List Event} {v : ℤ} (h : ClockFresh log)
    (hv : log.any Event.reopens = true → v = 0 ∨ ∃ x ∈ handedOut log, x.pts = v) :
    ClockFresh (.synced v :: log) := by
  intro v' new k b old hs hk
  rcases List.suffix_cons_iff.mp hs with hs | hs
  · obtain ⟨hv', rfl⟩ := List.cons.inj hs
    cases hv'
    have hr : (Event.returned k b).reopens = true := by rcases hk with rfl | rfl <;> rfl
    rcases hv (List.any_eq_true.mpr ⟨_, List.mem_append_right _ List.mem_cons_self, hr⟩) with hv | ⟨x, hx, hp⟩
    · exact .inl hv
    · exact .inr ⟨x, handedOut_mem hr hx, hp⟩
  · exact h v' new k b old hs hk

/-! ### The position of the audio -/

namespace Player
variable {s s' t : Player K}

/-- `audioPlay->pts` is the position of the last buffer handed out before the one that is `taken`. -/
def Timed (s : Player K) : Prop :=
  ∃ stored, s.log.filterMap Event.played = s.taken.toList ++ stored ∧
    s.audio.pts = (stored.head?.map XData.pts).getD 0

theorem Timed.of_eq (h : Timed s) (hl : t.log.filterMap Event.played = s.log.filterMap Event.played)
    (hc : t.taken = s.taken) (hp : t.audio.pts = s.audio.pts) : Timed t := by
  obtain ⟨stored, h1, h2⟩ := h
  exact ⟨stored, by rw [hl, hc, h1], hp.trans h2⟩

theorem Commands.clock {c : Cmd} {cs cs' : List Cmd} (h : Commands L cs s c t cs') :
    t.call = s.call ∧ t.audio.pts = s.audio.pts := by
  have hs : ∀ {pos f pc r}, Seeks L pos f s pc t r → t.call = s.call ∧ t.audio.pts = s.audio.pts := by
    intro pos f pc r h
    refine ⟨(congrArg Player.call h.eq :), ?_⟩
    cases h with
    | nothing | early | wanted | picture => rw [readBy_eq]
    | update hu => rw [updates_eq hu]
    | done hu => rw [updates_eq hu]
    | _ => rfl
  cases h with
  | @spawn o => cases o <;> exact ⟨rfl, rfl⟩
  | seek h => exact hs h
  | sought h => exact hs h
  | _ => exact ⟨rfl, rfl⟩

theorem Timed.call (h : Timed s) {pc : CallPc} (hpc : s.call = some pc) {x p : Bool}
    (hl : t.log = (callEvent s.audio pc).toList ++ s.log) (ha : t.audio = (callStep x p s.audio pc).1)
    (hc : t.call = (callStep x p s.audio pc).2) : Timed t := by
  obtain ⟨stored, h1, h2⟩ := h
  have hother : (∀ y, pc ≠ .got y) → (∀ y, t.call ≠ some (.got y)) →
      (callEvent s.audio pc).toList.filterMap Event.played = [] → t.audio.pts = s.audio.pts → Timed t := by
    intro hs ht he hp
    have hs' : s.taken = none := Option.eq_none_iff_forall_not_mem.mpr fun y hy =>
      hs y (Option.some.inj (hpc.symm.trans (call_of_taken hy)))
    have ht' : t.taken = none := Option.eq_none_iff_forall_not_mem.mpr fun y hy => ht y (call_of_taken hy)
    refine ⟨stored, ?_, hp.trans h2⟩
    rw [hl, List.filterMap_append, he, h1, hs', ht']
    rfl
  cases pc with
  | exitTest | pauseTest =>
    refine hother (fun y hy => by cases hy) (fun y hy => ?_) rfl (by rw [ha]; rfl)
    rw [hc] at hy
    simp only [callStep] at hy
    split at hy <;> cases hy
  | «section» =>
    rcases hf : s.audio.frames with _ | ⟨x, rest⟩ <;> simp only [callStep, callEvent, hf] at hl ha hc
    · exact hother (fun y hy => by cases hy) (fun y hy => by rw [hc] at hy; cases hy) (by simp [callEvent, hf])
        (by rw [ha])
    · have hs : s.taken = none := by simp [taken, hpc]
      have ht : t.taken = some x := by simp [taken, hc]
      refine ⟨stored, ?_, by rw [ha]; exact h2⟩
      rw [hs] at h1
      rw [hl, ht, List.filterMap_append, h1]
      rfl
  | got x =>
    have hs : s.taken = some x := by simp [taken, hpc]
    have ht : t.taken = none := Option.eq_none_iff_forall_not_mem.mpr fun y hy => by
      have hy := hc.symm.trans (call_of_taken hy)
      simp only [callStep] at hy
      split at hy <;> cases hy
    refine ⟨x :: stored, ?_, by rw [ha]; rfl⟩
    rw [hs] at h1
    rw [hl, ht, List.filterMap_append, h1]
    rfl
  | copy x | enqueue x | drop x =>
    refine hother (fun y hy => by cases hy) (fun y hy => ?_) rfl (by rw [ha]; rfl)
    rw [hc] at hy
    cases hy

/-- What `GetData` has handed out is changed by `PlayCall` alone. -/
theorem Steps.played {a : Act} (hs : Steps L s a t) (ha : a ≠ .call) :
    t.log.filterMap Event.played = s.log.filterMap Event.played ∧ t.taken = s.taken ∧
      t.audio.pts = s.audio.pts := by
  have hmoves : ∀ e : Event, e.moves = true → e.played = none := by
    intro e he
    cases e <;> first | rfl | cases he
  have htaken : ∀ {t : Player K}, t.call = s.call → t.taken = s.taken := by
    intro t h
    unfold taken
    rw [h]
  cases hs with
  | demux h =>
    exact ⟨(h.log_eq hmoves :), htaken (congrArg Player.call h.eq :), (congrArg (fun p => p.audio.pts) h.eq :)⟩
  | @dec d n t pc h =>
    refine ⟨?_, htaken (congrArg Player.call h.eq :), h.audioPts⟩
    generalize s.decW d n = pc₀ at h
    cases h <;> rfl
  | syncExit | syncMore | sync | request => exact ⟨rfl, rfl, rfl⟩
  | device hc => exact ⟨rfl, by simp [taken, hc], rfl⟩
  | call => exact absurd rfl ha
  | @ui c cs t cs' hui h =>
    obtain ⟨hc, hp⟩ := h.clock
    exact ⟨(h.log_keep hmoves fun _ _ => rfl :), htaken hc, hp⟩

theorem Timed.step {a : Act} (h : Timed s) (hs : Steps L s a t) : Timed t := by
  by_cases ha : a = .call
  · subst ha
    cases hs with
    | call hpc => exact h.call hpc rfl rfl rfl
  · obtain ⟨h1, h2, h3⟩ := hs.played ha
    exact h.of_eq h1 h2 h3

/-- A buffer handed out after the last return has its position stored, if it is not the one that is
`taken`. -/
theorem Timed.fresh (h : Timed s) (hn : s.taken.toList.length < (handedOut s.log).length) :
    ∃ x ∈ handedOut s.log, x.pts = s.audio.pts := by
  obtain ⟨stored, h1, h2⟩ := h
  obtain ⟨r, hr⟩ := handedOut_prefix s.log
  rw [h1] at hr
  rcases htk : s.taken with _ | y
  · rw [htk] at hr hn
    rcases hH : handedOut s.log with _ | ⟨x, rest⟩
    · rw [hH] at hn
      exact absurd hn (Nat.lt_irrefl 0)
    · rw [hH] at hr
      obtain rfl : stored = x :: (rest ++ r) := hr.symm
      exact ⟨x, List.mem_cons_self, h2.symm⟩
  · rw [htk] at hr hn
    rcases hH : handedOut s.log with _ | ⟨z, _ | ⟨x, rest⟩⟩
    · rw [hH] at hn
      exact absurd hn (Nat.not_lt_zero 1)
    · rw [hH] at hn
      exact absurd hn (Nat.lt_irrefl 1)
    · rw [hH] at hr
      obtain rfl : stored = x :: (rest ++ r) := (List.cons.inj hr).2.symm
      exact ⟨x, List.mem_cons_of_mem _ List.mem_cons_self, h2.symm⟩

end Player

/-- The condition: when `IPlayer::Main` stores a position after a `Seek` or an `Open` has returned, the
position of the audio is zero, or `GetData` has stored it for a buffer that it took since. -/
def Refreshed (a : Act) (s : Player K) : Prop :=
  match a with
  | .sync n => s.syncW n = .section → s.log.any Event.reopens = true →
    s.audio.pts = 0 ∨ s.taken.toList.length < (handedOut s.log).length
  | _ => True

instance (a : Act) (s : Player K) : Decidable (Refreshed a s) := by
  unfold Refreshed
  split <;> infer_instance

namespace Player
variable {s s' t : Player K}

theorem clock_step {a : Act} (hT : Timed s) (hF : ClockFresh (s.log.filterMap Event.clock))
    (ha : Refreshed a s) (hs : Steps L s a t) : ClockFresh (t.log.filterMap Event.clock) := by
  have hmoves : ∀ e : Event, e.moves = true → e.clock = none := by
    intro e he
    cases e <;> first | rfl | cases he
  cases hs with
  | demux h =>
    have hl := h.log_eq hmoves
    exact hl ▸ hF
  | @dec d n t pc h =>
    have hl : t.log.filterMap Event.clock = s.log.filterMap Event.clock := by
      generalize s.decW d n = pc₀ at h
      cases h <;> rfl
    exact hl ▸ hF
  | syncExit | syncMore | device | request => exact hF
  | @sync n hp hm =>
    refine hF.synced fun hr => ?_
    obtain ⟨e, he, hr⟩ := List.any_eq_true.mp hr
    obtain ⟨e', he, hc⟩ := List.mem_filterMap.mp he
    obtain rfl := Event.clock_eq hc
    rcases ha hp (List.any_eq_true.mpr ⟨_, he, hr⟩) with h0 | hn
    · exact .inl h0
    · rw [handedOut_clock]
      exact .inr (hT.fresh hn)
  | @call pc hpc =>
    show ClockFresh (((callEvent s.audio pc).toList ++ s.log).filterMap Event.clock)
    rcases hev : callEvent s.audio pc with _ | e
    · exact hF
    · have he : ∀ v, e ≠ .synced v := by
        rintro v rfl
        cases pc <;> simp [callEvent] at hev
      show ClockFresh ((e :: s.log).filterMap Event.clock)
      rcases hc : e.clock with _ | e'
      · rw [List.filterMap_cons_none hc]
        exact hF
      · obtain rfl := Event.clock_eq hc
        rw [List.filterMap_cons_some hc]
        exact hF.cons he
  | @ui c cs t cs' hui h =>
    by_cases hr : ∃ k, c = .ret k
    · obtain ⟨k, rfl⟩ := hr
      cases h
      exact hF.cons fun v hv => by cases hv
    · have hl := h.log_eq hmoves fun k hk => hr ⟨k, hk⟩
      exact hl ▸ hF

end Player

/-- In every run whose stores meet the condition, what `IPlayer::Main` stores is fresh. -/
theorem clock_fresh (L : FFmpeg K) {s : Player K} (h : (player L).Reach Refreshed s) : ClockFresh s.log := by
  have hI : s.Timed ∧ ClockFresh (s.log.filterMap Event.clock) := by
    refine h.inv (I := fun s => s.Timed ∧ ClockFresh (s.log.filterMap Event.clock)) ?_
      fun a s t hI ha hs => ⟨hI.1.step (Player.steps hs), Player.clock_step hI.1 hI.2 ha (Player.steps hs)⟩
    rintro _ ⟨total, rfl⟩
    exact ⟨⟨[], rfl, rfl⟩, fun v new k b old hs => absurd hs.length_le (by simp)⟩
  exact hI.2.of_clock

/-- `openStart` of an audio packet of 50 milliseconds, which the device has played. -/
def playedOne : List Act :=
  openStart [⟨1, 50, 50, [0]⟩] .opened ++ List.replicate 8 (.demux 0) ++ List.replicate 13 (.dec .audio 0) ++
    .device :: List.replicate 4 .call

set_option maxRecDepth 4000 in
/-- The position of a buffer that is played after `Open`. -/
theorem clock_fresh_played : ∃ s : Player (List AVFrame),
    s.log.head? = some (.synced 50) ∧ s.log.any Event.reopens = true ∧ ClockFresh s.log := by
  have hr : ((player bytewise).execIf Refreshed (playedOne ++ List.replicate 2 (.sync 0))
      { demux := { total := 0 } }).map (fun s => (s.log.head?, s.log.any Event.reopens)) =
        some (some (.synced 50), true) := by decide +kernel
  obtain ⟨s, hs, he⟩ := Option.map_eq_some_iff.mp hr
  simp only [Prod.mk.injEq] at he
  exact ⟨s, he.1, he.2, clock_fresh bytewise ⟨_, ⟨0, rfl⟩, .of_execIf hs⟩⟩

set_option maxRecDepth 4000 in
/-- After a `Seek` the position of the buffer that was played before it is stored. -/
theorem clock_stale : ¬ ∀ s : Player (List AVFrame), (player bytewise).Reach Sys.any s → ClockFresh s.log := by
  intro h
  have hr : ((player bytewise).exec (playedOne ++ .request (.seek 0 fun _ _ => (0, [])) ::
      List.replicate 26 .ui ++ List.replicate 2 (.sync 0)) { demux := { total := 0 } }).map
        (fun s => s.log.take 2) = some [.synced 50, .returned .seek false] := by decide +kernel
  obtain ⟨s, hs, hl⟩ := Option.map_eq_some_iff.mp hr
  have hsuf : Event.synced 50 :: [] ++ .returned .seek false :: s.log.drop 2 <:+ s.log := by
    refine ⟨[], ?_⟩
    rw [← List.take_append_drop 2 s.log, hl]
    rfl
  rcases h s ⟨_, ⟨0, rfl⟩, .of_exec_any hs⟩ 50 [] .seek false _ hsuf (.inr rfl) with h0 | ⟨x, hx, -⟩
  · cases h0
  · cases hx

end XPlayer
