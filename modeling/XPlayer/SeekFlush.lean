import XPlayer.Lib.History
import XPlayer.BackPressure
import XPlayer.Leak

/-!
# Packets from before a `Seek`

`Seek` empties both queues, moves the file, and lets the threads go on. A worker of the demuxer that is in
its loop body at that time keeps the packet it has read and stores it afterwards; `SetPause` waits for it
only for a bounded time.

As long as every worker of the demuxer is outside of its loop body when `Seek` takes the player's mutex
(`DemuxOutside`), all packets of the player were read after the last reposition (`Flushing`), and nothing is
stored between `Clear` and the reposition.
-/

namespace XPlayer
variable {K : Type} {L : FFmpeg K}

/-! ### The history -/

/-- `x` was read after the last reposition. -/
def ReadSince (x : XData) : List Event → Prop := History.Since (· = .reposition) fun e => ∃ w, e = .read w x

/-- `Seek` has emptied the queue of `d`, and nothing was stored there since. -/
def Untouched (d : Dec) : List Event → Prop := History.Since (fun e => ∃ w x, e = .push w d x) (· = .flushed d)

/-- What holds of an event and the history before it. -/
def Event.Flushed : Event → List Event → Prop
  | .push _ _ x, old | .send (.decoder _ _) x, old => ReadSince x old
  | .reposition, old => ∀ d, Untouched d old
  | _, _ => True

/-- `Seek` leaves nothing of what was read before. -/
structure SeekFlushes (log : List Event) : Prop where
  /-- What a decoder sends after `Seek` has returned true was read after the reposition. -/
  sent : ∀ d n x mid mid' old,
    .send (.decoder d n) x :: (mid ++ .returned .seek true :: (mid' ++ .reposition :: old)) <:+ log →
      ∃ w, .read w x ∈ mid ++ mid'
  /-- Nothing is stored in a queue between `Clear` and the reposition. -/
  kept : ∀ d w x mid old, .reposition :: (mid ++ .flushed d :: old) <:+ log → .flushed d ∉ mid → .push w d x ∉ mid
  /-- What is stored after the reposition was read after it. -/
  stored : ∀ w d x mid old, .push w d x :: (mid ++ .reposition :: old) <:+ log → ∃ w', .read w' x ∈ mid

theorem ReadSince.mem {x : XData} {mid old : List Event} (h : ReadSince x (mid ++ .reposition :: old)) :
    ∃ w, .read w x ∈ mid := by
  obtain ⟨e, he, w, rfl⟩ := h.exists_mem rfl (by rintro ⟨w, hw⟩; cases hw)
  exact ⟨w, he⟩

theorem SeekFlushes.of_always {log : List Event} (h : History.Always Event.Flushed log) : SeekFlushes log where
  sent d n x mid mid' old hs := by
    have hr : ReadSince x (mid ++ .returned .seek true :: (mid' ++ .reposition :: old)) := h _ _ hs
    have hr : ReadSince x ((mid ++ .returned .seek true :: mid') ++ .reposition :: old) := by simpa using hr
    obtain ⟨w, hw⟩ := hr.mem
    exact ⟨w, by simpa using hw⟩
  kept d w x mid old hs hn hp := by
    have hu : Untouched d (mid ++ .flushed d :: old) := h _ _ hs d
    exact hu.not_mem (fun e he hf => hn (hf ▸ he)) _ hp ⟨w, x, rfl⟩
  stored w d x mid old hs := ReadSince.mem (h _ _ hs)

/-! ### The packets of the threads -/

def UpdatePc.packet : UpdatePc → XData
  | .enter _ x | .exitTest _ x | .section _ x => x

def DemuxPc.carried : DemuxPc → List XData
  | .notify x => [x]
  | .update u => [u.packet]
  | _ => []

def SeekPc.carried : SeekPc → List XData
  | .skip _ x | .notify _ x | .send _ x | .drop _ x => [x]
  | .update _ u => [u.packet]
  | _ => []

def Cmd.carried : Cmd → List XData
  | .seek _ _ pc => pc.carried
  | _ => []

/-- Outside of the loop body. -/
def DemuxPc.outside : DemuxPc → Bool
  | .gone | .exitTest | .pauseTest => true
  | _ => false

/-- `Seek` has emptied the queue of `d` and not yet moved the file. -/
def SeekPc.cleared : SeekPc → Dec → Bool
  | .flush .video, d | .clear .audio, d => decide (d = .video)
  | .flush .audio, _ | .clearFrames, _ | .reposition, _ => true
  | _, _ => false

def clearing (d : Dec) : List Cmd → Bool
  | .seek _ _ pc :: _ => pc.cleared d
  | _ => false

/-- An event that neither stores nor sends a packet of a decoder nor moves the file. -/
def Event.still : Event → Bool
  | .reposition | .push .. | .send (.decoder _ _) _ => false
  | _ => true

theorem DemuxPc.outside_carried {pc : DemuxPc} (h : pc.outside = true) : pc.carried = [] := by
  cases pc <;> first | rfl | cases h

theorem DecPc.locked_owned {pc : DecPc} (h : pc.locked = false) : pc.owned = [] := by
  cases pc <;> first | rfl | cases h

theorem SeekPc.cleared_carried {pc : SeekPc} {d : Dec} (h : pc.cleared d = true) : pc.carried = [] := by
  cases pc <;> first | rfl | cases h

theorem clearing_seeking {d : Dec} {cs : List Cmd} (h : clearing d cs = true) : seeking cs = true := by
  unfold clearing at h
  split at h
  · rename_i pc _
    cases pc <;> first | rfl | cases h
  · cases h

namespace Player
variable {s s' t : Player K}

/-- The packet `x` is with a thread or in a queue. -/
def Carries (s : Player K) (x : XData) : Prop :=
  (∃ n, x ∈ (s.demuxW n).carried) ∨ (∃ c ∈ s.ui.head?, x ∈ c.carried) ∨ (∃ d, x ∈ (s.dec d).packs) ∨
    ∃ d n, x ∈ (s.decW d n).owned

/-! ### Where packets go in a step -/

/-- A step from `s` to `t` of a thread that had the packets `before` and has the packets `after`. It adds
`new` to the history, stores only packets of `stored` and sends only its own. -/
structure Flow (s t : Player K) (before stored after : List XData) (new : List Event) : Prop where
  log : t.log = new ++ s.log
  reposition : .reposition ∉ new
  push : ∀ w d x, .push w d x ∈ new → x ∈ stored
  send : ∀ d n x, .send (.decoder d n) x ∈ new → x ∈ before
  after : ∀ x ∈ after, x ∈ before ∨ (∃ d, x ∈ (s.dec d).packs) ∨ ∃ w, .read w x ∈ new
  queues : ∀ d, ∀ x ∈ (t.dec d).packs, x ∈ (s.dec d).packs ∨ x ∈ stored

section
variable {before stored after : List XData} {new : List Event}

/-- A step whose events are about no packet on its way. -/
theorem Flow.still (hl : t.log = new ++ s.log) (hn : ∀ e ∈ new, e.still = true)
    (hq : ∀ d, ∀ x ∈ (t.dec d).packs, x ∈ (s.dec d).packs)
    (ha : ∀ x ∈ after, x ∈ before ∨ (∃ d, x ∈ (s.dec d).packs) ∨ ∃ w, .read w x ∈ new) :
    Flow s t before stored after new where
  log := hl
  reposition hm := absurd (hn _ hm) Bool.false_ne_true
  push _ _ _ hm := absurd (hn _ hm) Bool.false_ne_true
  send _ _ _ hm := absurd (hn _ hm) Bool.false_ne_true
  after := ha
  queues d x hx := .inl (hq d x hx)

/-- A step that is not in the history. -/
theorem Flow.quiet (hl : t.log = s.log) (hq : ∀ d, ∀ x ∈ (t.dec d).packs, x ∈ (s.dec d).packs)
    (ha : ∀ x ∈ after, x ∈ before) : Flow s t before stored after [] :=
  .still hl (by simp) hq fun x hx => .inl (ha x hx)

end

theorem updates_flow {w : Holder} {u : UpdatePc} {r : Option UpdatePc} (h : Updates w s u t r) :
    ∃ new, Flow s t [u.packet] [u.packet] (r.toList.map UpdatePc.packet) new := by
  have hnext : ∀ (d : Dec) (x : XData), ∀ y ∈ (UpdatePc.next d x).toList.map UpdatePc.packet, y ∈ [x] := by
    intro d x y hy
    cases d with
    | video => simpa [UpdatePc.next, UpdatePc.packet] using hy
    | audio => simp [UpdatePc.next] at hy
  cases h with
  | skip | lost => exact ⟨[], .quiet rfl (fun _ _ => id) (hnext _ _)⟩
  | accept | go | full => exact ⟨[], .quiet rfl (fun _ _ => id) fun _ => id⟩
  | @push d x hm h =>
    refine ⟨[.push w d x], rfl, by simp, by simp [UpdatePc.packet], by simp, fun y hy => .inl (hnext _ _ y hy), ?_⟩
    intro d' y hy
    by_cases hd : d' = d
    · subst hd
      simpa [pushed, emit, UpdatePc.packet] using hy
    · exact .inl (by simpa [pushed, emit, setDec, hd] using hy)

/-- `Read` returns a packet from the file. -/
theorem readBy_flow (w : Holder) (after : List XData) (ha : ∀ x ∈ after, x = (s.readBy w).1)
    (hx : after ≠ [] → 0 < (s.readBy w).1.size) : ∃ new, Flow s (s.readBy w).2 [] [] after new := by
  have hl := congrArg Player.log (s.readBy_eq w)
  have hd := congrArg Player.dec (s.readBy_eq w)
  refine ⟨_, .still hl ?_ (fun d x h => ?_) fun x h => .inr (.inr ⟨w, ?_⟩)⟩
  · intro e he
    split at he
    · cases he
    · rw [List.mem_singleton.mp he]
      rfl
  · rw [hd] at h
    exact h
  · have hdata := readBy_data (hx (List.ne_nil_of_mem h))
    rw [ha x h]
    have hr : (s.readBy w).1 = (s.demux.read s.fresh).1 := rfl
    rw [hr] at hdata ⊢
    rw [if_neg hdata]
    exact List.mem_singleton.mpr rfl

theorem demuxes_flow {n : ℕ} {pc pc' : DemuxPc} (h : Demuxes n s pc t pc') :
    ∃ new, Flow s t pc.carried pc.carried pc'.carried new := by
  cases h with
  | read hx => exact readBy_flow _ _ (fun x h => List.mem_singleton.mp h) fun _ => hx
  | nothing => exact readBy_flow _ _ (fun x h => absurd h List.not_mem_nil) fun h => absurd rfl h
  | update hu => exact updates_flow hu
  | done hu =>
    obtain ⟨new, hf⟩ := updates_flow hu
    exact ⟨new, hf.log, hf.reposition, hf.push, hf.send, hf.after, hf.queues⟩
  | _ => exact ⟨[], .quiet rfl (fun _ _ => id) fun _ => id⟩

theorem decodes_flow {d : Dec} {n : ℕ} {pc pc' : DecPc} (h : Decodes L d n s pc t pc') :
    ∃ new, Flow s t pc.owned [] pc'.owned new := by
  have hset : ∀ {D : FFDecode K}, (∀ x ∈ D.packs, x ∈ (s.dec d).packs) → ∀ d', ∀ x ∈ ((s.setDec d D).dec d').packs,
      x ∈ (s.dec d').packs := by
    intro D hD d' x hx
    by_cases hd : d' = d
    · subst hd
      rw [setDec_self] at hx
      exact hD x hx
    · rwa [setDec_ne _ _ hd] at hx
  cases h with
  | @pop x rest hm hg hp =>
    refine ⟨[.pop d n x], .still rfl (by simp [Event.still]) (hset fun y hy => ?_) fun y hy => .inr (.inl ⟨d, ?_⟩)⟩
    · rw [hp]
      exact List.mem_cons_of_mem _ hy
    · rw [hp, List.mem_singleton.mp hy]
      exact List.mem_cons_self
  | @sent x | @unsent x =>
    refine ⟨[.send (.decoder d n) x], rfl, by simp, by simp, by simp [DecPc.owned], fun y hy => .inl hy,
      fun d' y hy => .inl (hset (fun z hz => ?_) d' y hy)⟩
    rwa [sendPacket_packs] at hz
  | drained | recv =>
    refine ⟨[], .quiet rfl (hset fun z hz => ?_) fun _ => id⟩
    rwa [recvFrame_packs] at hz
  | @«show» x f | @notify x f =>
    exact ⟨[.notify d f], .still rfl (by simp [Event.still]) (fun _ _ => id) fun _ => .inl⟩
  | @pcm x f y => exact ⟨[.resampled y], .still rfl (by simp [Event.still]) (fun _ _ => id) fun _ => .inl⟩
  | @pcmPush x y => exact ⟨[.queued y], .still rfl (by simp [Event.still]) (fun _ _ => id) fun _ => .inl⟩
  | @drop x =>
    exact ⟨[.drop (.decoder d n) x], .still rfl (by simp [Event.still]) (fun _ _ => id)
      fun x hx => absurd hx List.not_mem_nil⟩
  | _ => exact ⟨[], .quiet rfl (fun _ _ => id) fun _ => id⟩

/-- `Clear` drops all packets of the queue. -/
theorem emptied_flow (d : Dec) {e : Event} (he : e.still = true) :
    ∃ new, Flow s ((s.emptied d).emit e) [] [] [] (e :: new) := by
  refine ⟨((s.dec d).packs.map (.drop (.queue d))).reverse, .still rfl (fun e' h => ?_) (fun d' x hx => ?_)
    fun x hx => absurd hx List.not_mem_nil⟩
  · rcases List.mem_cons.mp h with rfl | h
    · exact he
    · obtain ⟨y, -, rfl⟩ := List.mem_map.mp (List.mem_reverse.mp h)
      rfl
  · by_cases hd : d' = d
    · subst hd
      simp [emptied, emit, setDec, FFDecode.clear] at hx
    · simpa [emptied, emit, setDec, hd] using hx

theorem clearFrames_flow : ∃ new, Flow s s.clearFrames [] [] [] new := by
  refine ⟨_, .still rfl (fun e h => ?_) (fun _ _ => id) fun x hx => absurd hx List.not_mem_nil⟩
  obtain ⟨y, -, rfl⟩ := List.mem_map.mp (List.mem_reverse.mp h)
  rfl

/-- A change of a decoder that adds nothing to its queue. -/
theorem setDec_flow {d : Dec} {D : FFDecode K} (hD : D.packs = (s.dec d).packs) :
    Flow s (s.setDec d D) [] [] [] [] := by
  refine .quiet rfl (fun d' x hx => ?_) fun _ => id
  rwa [setDec_congr FFDecode.packs s hD] at hx

theorem seeks_flow {pos : ℚ} {f : SeekFrame} {pc : SeekPc} {r : Option SeekPc} (h : Seeks L pos f s pc t r)
    (hpc : pc = .reposition → s.seekable pos = false) :
    ∃ new, Flow s t pc.carried pc.carried (r.toList.flatMap SeekPc.carried) new := by
  cases h with
  | @clear d =>
    obtain ⟨new, hf⟩ := emptied_flow (s := s) d (e := .flushed d) rfl
    exact ⟨_, hf⟩
  | @flush d => cases d <;> exact ⟨[], setDec_flow rfl⟩
  | clearFrames => exact clearFrames_flow
  | nothing => exact readBy_flow _ _ (fun x h => absurd h List.not_mem_nil) fun h => absurd rfl h
  | early hx | wanted hx | picture hx => exact readBy_flow _ _ (fun x h => List.mem_singleton.mp h) fun _ => hx
  | update hu => exact updates_flow hu
  | done hu =>
    obtain ⟨new, hf⟩ := updates_flow hu
    exact ⟨new, hf.log, hf.reposition, hf.push, hf.send, hf.after, hf.queues⟩
  | @skip T x | @drop T x =>
    exact ⟨[.drop .ui x], .still rfl (by simp [Event.still]) (fun _ _ => id) fun x hx => absurd hx List.not_mem_nil⟩
  | @send T x =>
    refine ⟨[.send .ui x], .still rfl (by simp [Event.still]) (fun d y hy => ?_) fun _ => .inl⟩
    have hp := setDec_congr FFDecode.packs s (sendPacket_packs (L := L) (s.dec .video) x) d
    exact hp ▸ hy
  | found | before => exact ⟨[], setDec_flow (recvFrame_packs _)⟩
  | reposition hs => exact absurd (hs.symm.trans (hpc rfl)) Bool.false_ne_true.symm
  | _ => exact ⟨[], .quiet rfl (fun _ _ => id) fun _ => id⟩

theorem commands_flow {c : Cmd} {cs cs' : List Cmd} (h : Commands L cs s c t cs')
    (hcs : ∀ c ∈ cs, c.carried = []) (hpc : ∀ pos f, c = .seek pos f .reposition → s.seekable pos = false) :
    ∃ new, Flow s t c.carried c.carried ((cs'.head?.map Cmd.carried).getD []) new := by
  have hnone : (cs.head?.map Cmd.carried).getD [] = [] := by
    rcases cs with _ | ⟨c', cs⟩
    · rfl
    · exact hcs c' List.mem_cons_self
  cases h with
  | @clear d =>
    obtain ⟨new, hf⟩ := emptied_flow (s := s) d (e := .cleared d) rfl
    rw [hnone]
    exact ⟨_, hf⟩
  | flush =>
    rw [hnone]
    exact ⟨[], setDec_flow rfl⟩
  | free =>
    rw [hnone]
    exact ⟨[], setDec_flow rfl⟩
  | openDec =>
    rw [hnone]
    exact ⟨[], setDec_flow (openDec_packs _ _ _)⟩
  | clearFrames =>
    rw [hnone]
    exact clearFrames_flow
  | @spawn o =>
    rw [hnone]
    cases o <;> exact ⟨[], .quiet rfl (fun _ _ => id) fun _ => id⟩
  | @seek pos f pc t pc' h =>
    obtain ⟨new, hf⟩ := seeks_flow h fun he => hpc pos f (by rw [he])
    refine ⟨new, hf.log, hf.reposition, hf.push, hf.send, fun x hx => hf.after x ?_, hf.queues⟩
    simpa [Cmd.carried] using hx
  | @sought pos f pc t h =>
    rw [hnone]
    obtain ⟨new, hf⟩ := seeks_flow h fun he => hpc pos f (by rw [he])
    exact ⟨new, hf.log, hf.reposition, hf.push, hf.send, fun x hx => absurd hx List.not_mem_nil, hf.queues⟩
  | @ret k =>
    rw [hnone]
    exact ⟨[.returned k s.ret], .still rfl (by simp [Event.still]) (fun _ _ => id) fun x hx => absurd hx List.not_mem_nil⟩
  | openFailed => exact ⟨[], .quiet rfl (fun _ _ => id) fun _ hx => absurd hx List.not_mem_nil⟩
  | _ =>
    rw [hnone]
    exact ⟨[], .quiet rfl (fun _ _ => id) fun _ => id⟩

/-! ### The invariant -/

structure Flushing (s : Player K) : Prop where
  holds : Holds s
  spawned : Spawned s
  begins : ∀ pos f pc, Cmd.seek pos f pc ∈ s.ui.tail → pc = .lock
  paused : Finds SeekPaused (fun _ => True) s.ui s.flags
  outside : seeking s.ui = true → ∀ n, (s.demuxW n).outside = true
  cleared : ∀ d, clearing d s.ui = true →
    (s.dec d).packs = [] ∧ (∀ n, (s.decW d n).locked = false) ∧ Untouched d s.log
  since : ∀ x, s.Carries x → ReadSince x s.log
  log : History.Always Event.Flushed s.log

/-- What a step of a thread does to the history, when its packets are among those of the player. -/
theorem Flow.since {before stored after : List XData} {new : List Event} (hf : Flow s t before stored after new)
    (h : ∀ x, s.Carries x → ReadSince x s.log) (hl : History.Always Event.Flushed s.log)
    (hb : ∀ x ∈ before, s.Carries x) (hs : ∀ x ∈ stored, s.Carries x) :
    (∀ x, s.Carries x → ReadSince x t.log) ∧ (∀ x ∈ after, ReadSince x t.log) ∧
      History.Always Event.Flushed t.log := by
  have hmono : ∀ {l : List Event}, (∀ e ∈ l, e ∈ new) → ∀ x, s.Carries x → ReadSince x (l ++ s.log) := by
    intro l hl x hx
    refine (h x hx).append fun e he hr => ?_
    subst hr
    exact hf.reposition (hl _ he)
  rw [hf.log]
  refine ⟨hmono fun _ => id, fun x hx => ?_, hl.append fun e mid hm => ?_⟩
  · rcases hf.after x hx with hx | hx | ⟨w, hw⟩
    · exact hmono (fun _ => id) x (hb x hx)
    · exact hmono (fun _ => id) x (.inr (.inr (.inl hx)))
    · exact History.Since.of_mem hw ⟨w, rfl⟩ fun e he hr => hf.reposition (hr ▸ he)
  · have hmem : ∀ a ∈ e :: mid, a ∈ new := fun a ha => hm.subset ha
    have he : e ∈ new := hmem e List.mem_cons_self
    have hmid : ∀ a ∈ mid, a ∈ new := fun a ha => hmem a (List.mem_cons_of_mem _ ha)
    cases e with
    | push w d x => exact hmono hmid x (hs x (hf.push w d x he))
    | send w x =>
      cases w with
      | decoder d n => exact hmono hmid x (hb x (hf.send d n x he))
      | _ => trivial
    | reposition => exact absurd he hf.reposition
    | _ => trivial

/-- A step of a thread that stores nothing. -/
theorem Flow.untouched {before after : List XData} {new : List Event} (hf : Flow s t before [] after new) {d : Dec}
    (hp : (s.dec d).packs = []) (hu : Untouched d s.log) : (t.dec d).packs = [] ∧ Untouched d t.log := by
  refine ⟨List.eq_nil_iff_forall_not_mem.mpr fun x hx => ?_, ?_⟩
  · rcases hf.queues d x hx with hx | hx
    · rw [hp] at hx
      cases hx
    · cases hx
  · rw [hf.log]
    refine hu.append fun e he => ?_
    rintro ⟨w, x, rfl⟩
    exact absurd (hf.push w d x he) List.not_mem_nil

theorem Demuxes.outside {n : ℕ} {pc pc' : DemuxPc} (h : Demuxes n s pc t pc') (hp : s.isPause .demux = true)
    (ho : pc.outside = true) : pc'.outside = true := by
  cases h with
  | exit | more | paused => rfl
  | run hp' =>
    rw [hp] at hp'
    cases hp'
  | _ => cases ho

/-- Without packets, a worker does not begin to decode. -/
theorem Decodes.idle {d : Dec} {n : ℕ} {pc pc' : DecPc} (h : Decodes L d n s pc t pc')
    (hp : (s.dec d).packs = []) (hl : pc.locked = false) : pc'.locked = false := by
  cases h with
  | exit | more | paused | run | shut | empty => rfl
  | pop _ _ h =>
    rw [hp] at h
    cases h
  | _ => cases hl

/-- A step of the device or of `IPlayer::Main`. -/
theorem Flushing.of_eq (h : Flushing s) {new : List Event} (hf : Flow s t [] [] [] new) (hH : Holds t)
    (hS : Spawned t) (hD : t.demuxW = s.demuxW) (hW : t.decW = s.decW) (hF : t.flags = s.flags)
    (hU : t.ui = s.ui) : Flushing t := by
  obtain ⟨h1, -, h3⟩ := hf.since h.since h.log (fun x hx => absurd hx List.not_mem_nil)
    fun x hx => absurd hx List.not_mem_nil
  refine ⟨hH, hS, ?_, ?_, ?_, fun d hd => ?_, fun x hx => h1 x ?_, h3⟩
  · rw [hU]
    exact h.begins
  · rw [hU, hF]
    exact h.paused
  · rw [hU, hD]
    exact h.outside
  · rw [hU] at hd
    rw [hW]
    obtain ⟨hp, hl, hu⟩ := h.cleared d hd
    obtain ⟨hp, hu⟩ := hf.untouched hp hu
    exact ⟨hp, hl, hu⟩
  · unfold Carries at hx
    rw [hD, hU, hW] at hx
    rcases hx with hx | hx | ⟨d, hx⟩ | hx
    · exact .inl hx
    · exact .inr (.inl hx)
    · exact .inr (.inr (.inl ⟨d, (hf.queues d x hx).resolve_right List.not_mem_nil⟩))
    · exact .inr (.inr (.inr hx))

theorem Flushing.demux (L : FFmpeg K) (h : Flushing s) {n : ℕ} {pc : DemuxPc} (hd : Demuxes n s (s.demuxW n) t pc) :
    Flushing (t.setDemux n pc) := by
  have hs : Steps L s (.demux n) (t.setDemux n pc) := .demux hd
  have hU : t.ui = s.ui := (congrArg Player.ui hd.eq :)
  have hF : t.flags = s.flags := (congrArg Player.flags hd.eq :)
  have hW : t.decW = s.decW := (congrArg Player.decW hd.eq :)
  have hD : t.demuxW = s.demuxW := (congrArg Player.demuxW hd.eq :)
  obtain ⟨new, hf⟩ := demuxes_flow hd
  have hb : ∀ x ∈ (s.demuxW n).carried, s.Carries x := fun x hx => .inl ⟨n, hx⟩
  obtain ⟨h1, h2, h3⟩ := hf.since h.since h.log hb hb
  refine ⟨h.holds.step hs, h.spawned.step hs, ?_, ?_, fun hk m => ?_, fun d hd' => ?_, fun x hx => ?_, h3⟩
  · show ∀ pos f pc, Cmd.seek pos f pc ∈ t.ui.tail → pc = .lock
    rw [hU]
    exact h.begins
  · show Finds SeekPaused (fun _ => True) t.ui t.flags
    rw [hU, hF]
    exact h.paused
  · replace hk : seeking s.ui = true := hU ▸ hk
    show (Function.update t.demuxW n pc m).outside = true
    rw [Function.update_apply, hD]
    split
    · rename_i he
      subst he
      exact hd.outside (Finds.seek_paused h.paused hk _) (h.outside hk m)
    · exact h.outside hk m
  · replace hd' : clearing d s.ui = true := hU ▸ hd'
    -- the worker is outside of its loop body, so it has no packet
    rw [DemuxPc.outside_carried (h.outside (clearing_seeking hd') n)] at hf
    obtain ⟨hp, hl, hu⟩ := h.cleared d hd'
    obtain ⟨hp, hu⟩ := hf.untouched hp hu
    refine ⟨hp, fun m => ?_, hu⟩
    show (t.decW d m).locked = false
    rw [hW]
    exact hl m
  · rcases hx with ⟨m, hx⟩ | hx | ⟨d, hx⟩ | hx
    · have hx : x ∈ (Function.update t.demuxW n pc m).carried := hx
      rw [Function.update_apply, hD] at hx
      split at hx
      · exact h2 x hx
      · exact h1 x (.inl ⟨m, hx⟩)
    · have hx : ∃ c ∈ t.ui.head?, x ∈ c.carried := hx
      rw [hU] at hx
      exact h1 x (.inr (.inl hx))
    · rcases hf.queues d x hx with hx | hx
      · exact h1 x (.inr (.inr (.inl ⟨d, hx⟩)))
      · exact h1 x (hb x hx)
    · have hx : ∃ d m, x ∈ (t.decW d m).owned := hx
      rw [hW] at hx
      exact h1 x (.inr (.inr (.inr hx)))

theorem Flushing.dec (h : Flushing s) {d : Dec} {n : ℕ} {pc : DecPc} (hd : Decodes L d n s (s.decW d n) t pc) :
    Flushing (t.setDecW d n pc) := by
  have hs : Steps L s (.dec d n) (t.setDecW d n pc) := .dec hd
  have hU : t.ui = s.ui := (congrArg Player.ui hd.eq :)
  have hF : t.flags = s.flags := (congrArg Player.flags hd.eq :)
  have hW : t.decW = s.decW := (congrArg Player.decW hd.eq :)
  have hD : t.demuxW = s.demuxW := (congrArg Player.demuxW hd.eq :)
  obtain ⟨new, hf⟩ := decodes_flow hd
  obtain ⟨h1, h2, h3⟩ := hf.since h.since h.log (fun x hx => .inr (.inr (.inr ⟨d, n, hx⟩)))
    fun x hx => absurd hx List.not_mem_nil
  refine ⟨h.holds.step hs, h.spawned.step hs, ?_, ?_, fun hk m => ?_, fun d' hd' => ?_, fun x hx => ?_, h3⟩
  · show ∀ pos f pc, Cmd.seek pos f pc ∈ t.ui.tail → pc = .lock
    rw [hU]
    exact h.begins
  · show Finds SeekPaused (fun _ => True) t.ui t.flags
    rw [hU, hF]
    exact h.paused
  · replace hk : seeking s.ui = true := hU ▸ hk
    show (t.demuxW m).outside = true
    rw [hD]
    exact h.outside hk m
  · replace hd' : clearing d' s.ui = true := hU ▸ hd'
    obtain ⟨hp, hl, hu⟩ := h.cleared d' hd'
    obtain ⟨hp', hu⟩ := hf.untouched hp hu
    refine ⟨hp', fun m => ?_, hu⟩
    rw [setDecW_decW, hW]
    split
    · rename_i he
      obtain ⟨rfl, rfl⟩ := he
      exact hd.idle hp (hl m)
    · exact hl m
  · rcases hx with hx | hx | ⟨d', hx⟩ | ⟨d', m, hx⟩
    · have hx : ∃ m, x ∈ (t.demuxW m).carried := hx
      rw [hD] at hx
      exact h1 x (.inl hx)
    · have hx : ∃ c ∈ t.ui.head?, x ∈ c.carried := hx
      rw [hU] at hx
      exact h1 x (.inr (.inl hx))
    · exact h1 x (.inr (.inr (.inl ⟨d', (hf.queues d' x hx).resolve_right List.not_mem_nil⟩)))
    · rw [setDecW_decW, hW] at hx
      split at hx
      · exact h2 x hx
      · exact h1 x (.inr (.inr (.inr ⟨d', m, hx⟩)))

/-! ### The controller -/

/-- `Seek` goes on to a place after the `Clear` of `d` from that `Clear` or from another such place. -/
theorem Seeks.cleared {pos : ℚ} {f : SeekFrame} {pc pc' : SeekPc} {d : Dec} (h : Seeks L pos f s pc t (some pc'))
    (hc : pc'.cleared d = true) : pc = .clear d ∧ t = (s.emptied d).emit (.flushed d) ∨ pc.cleared d = true := by
  generalize hr : some pc' = r at h
  cases h with
  | @clear d' =>
    cases hr
    cases d <;> cases d'
    · exact .inl ⟨rfl, rfl⟩
    · exact .inr rfl
    · cases hc
    · exact .inl ⟨rfl, rfl⟩
  | @flush d' =>
    cases hr
    cases d' with
    | video => exact .inr hc
    | audio => exact .inr rfl
  | clearFrames => exact .inr rfl
  | unlock => cases hr
  | _ => cases hr; cases hc

end Player

/-- The condition on the steps of a run: when `Seek` takes the player's mutex, every worker of the demuxer is
outside of its loop body. -/
def DemuxOutside (a : Act) (s : Player K) : Prop :=
  match a with
  | .ui => locking s.ui = true → ∀ n < s.demuxN, (s.demuxW n).outside = true
  | _ => True

instance : (a : Act) → (s : Player K) → Decidable (DemuxOutside a s)
  | .ui, _ => inferInstanceAs (Decidable (_ → _))
  | .demux _, _ | .dec _ _, _ | .sync _, _ | .device, _ | .call, _ | .request _, _ =>
    inferInstanceAs (Decidable True)

namespace Player
variable {s s' t : Player K}

/-- The controller moves no worker that has begun. -/
theorem Commands.spawns {c : Cmd} {cs cs' : List Cmd} (h : Commands L cs s c t cs') :
    (∀ n, t.demuxW n = s.demuxW n ∨ t.demuxW n = .exitTest) ∧
      ∀ d n, t.decW d n = s.decW d n ∨ t.decW d n = .exitTest := by
  cases h with
  | @spawn o =>
    cases o with
    | demux =>
      refine ⟨fun n => ?_, fun _ _ => .inl rfl⟩
      show Function.update s.demuxW s.demuxN .exitTest n = _ ∨ Function.update s.demuxW s.demuxN .exitTest n = _
      rw [Function.update_apply]
      split
      · exact .inr rfl
      · exact .inl rfl
    | dec d' =>
      refine ⟨fun _ => .inl rfl, fun d n => ?_⟩
      show (s.setDecW d' (s.decN d') .exitTest).decW d n = _ ∨ (s.setDecW d' (s.decN d') .exitTest).decW d n = _
      rw [setDecW_decW]
      split
      · exact .inr rfl
      · exact .inl rfl
    | _ => exact ⟨fun _ => .inl rfl, fun _ _ => .inl rfl⟩
  | seek h | sought h =>
    rw [h.eq]
    exact ⟨fun _ => .inl rfl, fun _ _ => .inl rfl⟩
  | _ => exact ⟨fun _ => .inl rfl, fun _ _ => .inl rfl⟩

theorem Flushing.seek_outside (h : Flushing s) {pos : ℚ} {f : SeekFrame} {pc : SeekPc} {cs : List Cmd}
    (hui : s.ui = .seek pos f pc :: cs) (ha : DemuxOutside .ui s) (n : ℕ) : (s.demuxW n).outside = true := by
  by_cases hpc : pc = .lock
  · subst hpc
    by_cases hn : n < s.demuxN
    · exact ha (by rw [hui]; rfl) n hn
    · rw [h.spawned.demux n (not_lt.mp hn)]
      rfl
  · exact h.outside (by rw [hui]; cases pc <;> first | rfl | exact absurd rfl hpc) n

/-- When `Seek` moves the file, there are no packets. -/
theorem Flushing.none_carried (h : Flushing s) {pos : ℚ} {f : SeekFrame} {cs : List Cmd}
    (hui : s.ui = .seek pos f .reposition :: cs) (x : XData) : ¬ s.Carries x := by
  have hcl : ∀ d, clearing d s.ui = true := fun d => by rw [hui]; rfl
  rintro (⟨n, hx⟩ | ⟨c, hc, hx⟩ | ⟨d, hx⟩ | ⟨d, n, hx⟩)
  · rw [DemuxPc.outside_carried (h.outside (clearing_seeking (hcl .video)) n)] at hx
    cases hx
  · rw [hui] at hc
    cases hc
    cases hx
  · rw [(h.cleared d (hcl d)).1] at hx
    cases hx
  · rw [DecPc.locked_owned ((h.cleared d (hcl d)).2.1 n)] at hx
    cases hx

theorem Flushing.moves (h : Flushing s) {c : Cmd} {cs cs' : List Cmd} (hui : s.ui = c :: cs)
    (hc : Commands L cs s c t cs') (hcs : ∀ c ∈ cs, c.carried = []) :
    (∀ x, Carries { t with ui := cs' } x → ReadSince x t.log) ∧ History.Always Event.Flushed t.log := by
  by_cases hr : ∃ pos f, c = .seek pos f .reposition ∧ s.seekable pos = true
  · obtain ⟨pos, f, rfl, hsk⟩ := hr
    have hnone := h.none_carried hui
    cases hc with
    | sought hk => cases hk
    | seek hk =>
      cases hk with
      | rejected hsk' => exact absurd (hsk.symm.trans hsk') Bool.false_ne_true.symm
      | reposition =>
        refine ⟨fun x hx => absurd ?_ (hnone x), ?_⟩
        · rcases hx with hx | ⟨c, hc, hx⟩ | hx
          · exact .inl hx
          · cases hc
            cases hx
          · exact .inr (.inr hx)
        · show History.Always Event.Flushed ([.reposition] ++ s.log)
          refine h.log.append fun e mid hm => ?_
          obtain ⟨rfl, rfl⟩ : e = .reposition ∧ mid = [] := by simpa [List.suffix_cons_iff] using hm
          exact fun d => (h.cleared d (by rw [hui]; rfl)).2.2
  · have hnot : ∀ pos f, c = .seek pos f .reposition → s.seekable pos = false := fun pos f he =>
      eq_false_of_ne_true fun hsk => hr ⟨pos, f, he, hsk⟩
    obtain ⟨new, hf⟩ := commands_flow hc hcs hnot
    have hb : ∀ x ∈ c.carried, s.Carries x := fun x hx => .inr (.inl ⟨c, by rw [hui]; rfl, hx⟩)
    obtain ⟨h1, h2, h3⟩ := hf.since h.since h.log hb hb
    refine ⟨fun x hx => ?_, h3⟩
    rcases hx with ⟨n, hx⟩ | ⟨c', hc', hx⟩ | ⟨d, hx⟩ | ⟨d, n, hx⟩
    · rcases hc.spawns.1 n with he | he
      · exact h1 x (.inl ⟨n, he ▸ hx⟩)
      · rw [show ({ t with ui := cs' } : Player K).demuxW n = _ from he] at hx
        cases hx
    · refine h2 x ?_
      rw [hc']
      exact hx
    · rcases hf.queues d x hx with hx | hx
      · exact h1 x (.inr (.inr (.inl ⟨d, hx⟩)))
      · exact h1 x (hb x hx)
    · rcases hc.spawns.2 d n with he | he
      · exact h1 x (.inr (.inr (.inr ⟨d, n, he ▸ hx⟩)))
      · rw [show ({ t with ui := cs' } : Player K).decW d n = _ from he] at hx
        cases hx

theorem Flushing.command (h : Flushing s) {c : Cmd} {cs cs' : List Cmd} (hui : s.ui = c :: cs)
    (hc : Commands L cs s c t cs') (ha : DemuxOutside .ui s) : Flushing { t with ui := cs' } := by
  have hs : Steps L s .ui { t with ui := cs' } := .ui hui hc
  have hb : ∀ pos f pc, Cmd.seek pos f pc ∈ cs → pc = .lock := fun pos f pc hm =>
    h.begins pos f pc (by rw [hui]; exact hm)
  have hcs : ∀ c ∈ cs, c.carried = [] := by
    intro c hm
    cases c with
    | seek pos f pc =>
      obtain rfl := hb pos f pc hm
      rfl
    | _ => rfl
  obtain ⟨h1, h2⟩ := h.moves hui hc hcs
  have hk : seeking cs' = true → ∃ pos f pc pc', c = .seek pos f pc ∧ cs' = .seek pos f pc' :: cs ∧
      Seeks L pos f s pc t (some pc') := by
    intro hk
    cases hc with
    | seek hseek => exact ⟨_, _, _, _, rfl, rfl, hseek⟩
    | openFailed => cases hk
    | _ => exact absurd ((seeking_of_begins hb).symm.trans hk) Bool.false_ne_true
  refine ⟨h.holds.step hs, h.spawned.step hs, hc.begins hb, hs.seek_paused h.paused, fun hk' n => ?_, fun d hd => ?_,
    h1, h2⟩
  · obtain ⟨pos, f, pc, pc', rfl, -, hseek⟩ := hk hk'
    show (t.demuxW n).outside = true
    rw [(congrArg Player.demuxW hseek.eq :)]
    exact h.seek_outside hui ha n
  · obtain ⟨pos, f, pc, pc', rfl, rfl, hseek⟩ := hk (clearing_seeking hd)
    show (t.dec d).packs = [] ∧ (∀ n, (t.decW d n).locked = false) ∧ Untouched d t.log
    have hW : t.decW = s.decW := (congrArg Player.decW hseek.eq :)
    rw [hW]
    rcases hseek.cleared hd with ⟨rfl, rfl⟩ | hcl
    · refine ⟨by simp [emptied, emit, FFDecode.clear], fun n => ?_, ⟨[], _, _, rfl, rfl, by simp⟩⟩
      cases hseek with
      | clear hm =>
        -- the holder of `packsMutex` would be in the section
        refine eq_false_of_ne_true fun hl => ?_
        rw [(h.holds.holder d n).mpr hl] at hm
        cases hm
    · obtain ⟨hp, hl, hu⟩ := h.cleared d (by rw [hui]; exact hcl)
      obtain ⟨new, hf⟩ := seeks_flow hseek fun he => by subst he; cases hseek <;> cases hd
      rw [SeekPc.cleared_carried hcl] at hf
      obtain ⟨hp, hu⟩ := hf.untouched hp hu
      exact ⟨hp, hl, hu⟩

theorem Flushing.step (h : Flushing s) {a : Act} (ha : DemuxOutside a s) (hs : Steps L s a t) : Flushing t := by
  have hnil : ∀ x ∈ ([] : List XData), x ∈ ([] : List XData) := fun _ => id
  have hH := h.holds.step hs
  have hS := h.spawned.step hs
  have hP := hs.seek_paused h.paused
  cases hs with
  | demux hd => exact h.demux L hd
  | dec hd => exact h.dec hd
  | ui hui hc => exact h.command hui hc ha
  | @sync n hp hm =>
    refine @Flushing.of_eq _ _ _ h [.synced s.audio.pts] (.still rfl (by simp [Event.still]) (fun d x hx => ?_) fun x hx =>
      absurd hx List.not_mem_nil) hH hS rfl rfl rfl rfl
    cases d <;> exact hx
  | syncExit | syncMore | device => exact h.of_eq (.quiet rfl (fun _ _ => id) hnil) hH hS rfl rfl rfl rfl
  | @call pc hp =>
    refine h.of_eq (.still rfl (fun e he => ?_) (fun _ _ => id) fun x hx => absurd hx List.not_mem_nil) hH hS rfl rfl
      rfl rfl
    have he : e ∈ callEvent s.audio pc := Option.mem_toList.mp he
    cases pc with
    | «section» =>
      obtain ⟨x, -, rfl⟩ := Option.map_eq_some_iff.mp he
      rfl
    | drop => cases he; rfl
    | _ => cases he
  | @request c hui =>
    have hf : Flow s (s.emit (.called c.kind)) [] [] [] [.called c.kind] :=
      .still rfl (by simp [Event.still]) (fun _ _ => id) fun x hx => absurd hx List.not_mem_nil
    obtain ⟨h1, -, h3⟩ := hf.since h.since h.log (fun x hx => absurd hx List.not_mem_nil)
      fun x hx => absurd hx List.not_mem_nil
    have hk := c.program_seeking.1
    refine ⟨hH, hS, fun pos f pc hm => c.program_begins (List.mem_of_mem_tail hm), hP,
      fun hk' => absurd (hk.symm.trans hk') Bool.false_ne_true,
      fun d hd => absurd (hk.symm.trans (clearing_seeking hd)) Bool.false_ne_true, fun x hx => h1 x ?_, h3⟩
    rcases hx with hx | ⟨c', hc', hx⟩ | hx
    · exact .inl hx
    · cases c' with
      | seek pos f pc =>
        obtain rfl := c.program_begins (List.mem_of_mem_head? hc')
        cases hx
      | _ => cases hx
    · exact .inr (.inr hx)

end Player

/-- In every run in which the workers of the demuxer are outside of their loop body when `Seek` takes the
player's mutex, `Seek` leaves nothing of what was read before. -/
theorem seek_flushes (L : FFmpeg K) {s : Player K} (h : (player L).Reach DemuxOutside s) : SeekFlushes s.log := by
  refine .of_always (h.inv (I := Player.Flushing) ?_ fun a s t hI ha hs => hI.step ha (Player.steps hs)).log
  rintro _ ⟨total, rfl⟩
  refine ⟨⟨fun _ _ _ => rfl, fun d n => ⟨fun h => ?_, fun h => ?_⟩⟩, ⟨fun _ _ => rfl, fun _ _ => rfl⟩,
    fun _ _ _ hm => ?_, trivial, fun hk => ?_, fun d hd => ?_, fun x hx => ?_, History.always_nil⟩
  · cases h
  · cases h
  · cases hm
  · cases hk
  · cases hd
  · rcases hx with ⟨n, hx⟩ | ⟨c, hc, hx⟩ | ⟨d, hx⟩ | ⟨d, n, hx⟩
    · cases hx
    · cases hc
    · cases hx
    · cases hx

set_option maxRecDepth 4000 in
/-- `Seek` reads and sends the first packet after the reposition, and a worker the next one. -/
theorem seek_flushes_played : ∃ (s : Player (List AVFrame)) (x y : XData), SeekFlushes s.log ∧
    s.log.take 9 = [.send (.decoder .video 0) x, .pop .video 0 x, .push (.demux 0) .video x, .read (.demux 0) x,
      .returned .seek false, .drop .ui y, .send .ui y, .read .ui y, .reposition] := by
  let x : XData := { pts := 40, data := .packet 1 ⟨0, 40, 40, [0, 1]⟩, size := 2 }
  let y : XData := { data := .packet 0 ⟨0, 0, 0, [0]⟩, size := 1 }
  have hr : ((player bytewise).execIf DemuxOutside (openStart [] .opened ++
      .request (.seek 0 fun _ _ => (0, [⟨0, 0, 0, [0]⟩, ⟨0, 40, 40, [0, 1]⟩])) :: List.replicate 29 .ui ++
        List.replicate 7 (.demux 0) ++ List.replicate 5 (.dec .video 0)) { demux := { total := 0 } }).map
          (fun s => s.log.take 9) = some [.send (.decoder .video 0) x, .pop .video 0 x, .push (.demux 0) .video x,
            .read (.demux 0) x, .returned .seek false, .drop .ui y, .send .ui y, .read .ui y, .reposition] := by
    decide +kernel
  obtain ⟨s, hs, hl⟩ := Option.map_eq_some_iff.mp hr
  exact ⟨s, x, y, seek_flushes bytewise ⟨_, ⟨0, rfl⟩, .of_execIf hs⟩, hl⟩

set_option maxRecDepth 4000 in
/-- A worker has read a packet when `Seek` begins, and stores it after `Seek` has returned. -/
theorem seek_not_flushed : ¬ ∀ s : Player (List AVFrame), (player bytewise).Reach Sys.any s → SeekFlushes s.log := by
  intro h
  let x : XData := { data := .packet 0 ⟨0, 0, 0, [0]⟩, size := 1 }
  have hr : ((player bytewise).exec (openStart [⟨0, 0, 0, [0]⟩] .opened ++ List.replicate 3 (.demux 0) ++
      .request (.seek 0 fun _ _ => (0, [])) :: List.replicate 26 .ui ++ List.replicate 4 (.demux 0))
        { demux := { total := 0 } }).map (fun s => s.log.take 3) =
          some [.push (.demux 0) .video x, .returned .seek false, .reposition] := by decide +kernel
  obtain ⟨s, hs, hl⟩ := Option.map_eq_some_iff.mp hr
  obtain ⟨w, hw⟩ := (h s ⟨_, ⟨0, rfl⟩, .of_exec_any hs⟩).stored (.demux 0) .video x [.returned .seek false]
    (s.log.drop 3) ⟨[], by
      conv_rhs => rw [← List.take_append_drop 3 s.log, hl]
      rfl⟩
  simp at hw

end XPlayer
