import XPlayer.SeekWait
import XPlayer.Orderly

/-!
# Where playback gets stuck

After `Start`, without a call of the controller, all threads poll. A state from which nothing but idle polls can
happen although packets or buffers are left is one in which the audio is used up (`Starved`): the clock `synPts` stands
where the last buffer put it, `vDecode` waits for it to pass the picture it has decoded last, and the one thread that
could bring more audio waits for space in the queue of `vDecode` or has read the whole file.
-/

namespace XPlayer
variable {K : Type} {L : FFmpeg K}

/-- The copy of the audio position, which the sync thread makes again and again. -/
def Event.isSynced : Event → Bool
  | .synced _ => true
  | _ => false

/-- The buffer that a `PlayCall` has taken. -/
def CallPc.buffer : CallPc → Option XData
  | .got x | .copy x | .enqueue x | .drop x => some x
  | _ => none

/-- What an idle poll leaves as it is. -/
structure Work where
  events : ℕ
  unread : ℕ
  delivering : Option XData
  apts : ℤ
  synPts : ℤ

/-- A step of a thread of the player, not of the controller. -/
def Act.threads : Act → Bool
  | .ui | .request _ => false
  | _ => true

namespace Player
variable {s t : Player K} {n : ℕ}

def delivering (s : Player K) : Option XData := s.call.bind CallPc.buffer

def work (s : Player K) : Work where
  events := (s.log.filter fun e => !e.isSynced).length
  unread := s.demux.unread.length
  delivering := s.delivering
  apts := s.audio.pts
  synPts := (s.dec .video).synPts

/-- Without the controller, something can happen that is no idle poll. -/
def GoesOn (L : FFmpeg K) (s : Player K) : Prop :=
  ∃ t, (player L).Run (fun a _ => a.threads = true) s t ∧ t.work ≠ s.work

/-- The player after `Open` and `Start`, with no call of the controller: no flag is set, there is one worker of `demux`,
and the other threads have theirs. -/
structure Running (s : Player K) : Prop where
  ui : s.ui = []
  isExit : ∀ o, s.isExit o = false
  isPause : ∀ o, s.isPause o = false
  demux : ∃ n, s.demuxW n ≠ .gone ∧ ∀ m, m ≠ n → s.demuxW m = .gone
  dec : ∀ d, ∃ n, s.decW d n ≠ .gone
  sync : ∃ n, s.syncW n ≠ .gone

/-- Packets are left in the file or in a queue, or buffers. -/
def Left (s : Player K) : Prop := s.demux.unread ≠ [] ∨ (∃ d, (s.dec d).packs ≠ []) ∨ s.audio.frames ≠ []

/-- The decoder that will store the packet which the worker of `demux` has in hand. -/
def dest (s : Player K) : DemuxPc → Option Dec
  | .notify x | .update (.enter .video x) =>
    if x.isAudio = (s.dec .video).isAudio then some .video
    else if x.isAudio = (s.dec .audio).isAudio then some .audio else none
  | .update (.enter .audio x) => if x.isAudio = (s.dec .audio).isAudio then some .audio else none
  | .update (.exitTest d _) | .update (.section d _) => some d
  | _ => none

/-- The worker of `demux` waits for space, or has nothing more to read. -/
def Parked (s : Player K) (pc : DemuxPc) : Prop :=
  match s.dest pc with
  | some d => s.packsMutex d ≠ none ∨ (s.dec d).maxList ≤ (s.dec d).packs.length
  | none => s.demux.unread = []

/-- A worker of `aDecode` waits for the mutex of `Resample`, which has been left locked. -/
def Jammed (s : Player K) : Prop :=
  ∃ n x f, s.decW .audio n = .resample x f ∧ 0 < f.size ∧ s.resampleMux = true

/-- The workers of `d` find nothing to decode, or wait for the audio clock. -/
def Idle (s : Player K) (d : Dec) : Prop :=
  s.packsMutex d = none ∧ ((s.dec d).packs = [] ∨ gateClosed (s.dec d) = true)

/-- Only idle polls are left. -/
structure Halted (s : Player K) : Prop where
  frames : s.audio.frames = []
  delivering : s.delivering = none
  synced : (s.dec .video).synPts = s.audio.pts
  video : s.Idle .video
  audio : s.Jammed ∨ s.Idle .audio
  demux : ∀ n, s.demuxW n ≠ .gone → s.Parked (s.demuxW n)

/-- A step is no idle poll, or does not change the work. -/
theorem GoesOn.step {a : Act} (hs : s.step L a = some t) (ha : a.threads = true) (h : t.work = s.work → GoesOn L t) :
    GoesOn L s := by
  by_cases hw : t.work = s.work
  · obtain ⟨u, hu, hne⟩ := h hw
    exact ⟨u, .cons (a := a) ha hs hu, hw ▸ hne⟩
  · exact ⟨t, .single (a := a) ha hs, hw⟩

/-- A new event that is no copy of the position. -/
theorem work_ne_of_log {e : Event} (hl : t.log = e :: s.log) (he : e.isSynced = false) : t.work ≠ s.work := by
  intro hw
  have hw := congrArg Work.events hw
  simp only [work, hl, List.filter_cons, he, Bool.not_false, ↓reduceIte, List.length_cons] at hw
  omega

theorem GoesOn.event {a : Act} {e : Event} (hs : s.step L a = some t) (ha : a.threads = true)
    (hl : t.log = e :: s.log) (he : e.isSynced = false) : GoesOn L s :=
  .step hs ha fun hw => absurd hw (work_ne_of_log hl he)

/-! ### The callback -/

theorem goesOn_delivering (h : s.delivering ≠ none) : GoesOn L s := by
  rcases hc : s.call with _ | pc
  · exact absurd (by rw [delivering, hc]; rfl) h
  -- the end of the callback
  have hend : ∀ {s : Player K} {x : XData}, s.call = some (.drop x) → GoesOn L s := fun {s x} hc => by
    refine GoesOn.event (a := .call) (e := .dropPcm x) (t := { s with call := none, log := .dropPcm x :: s.log }) ?_ rfl
      rfl rfl
    simp [Player.step, stepCall, hc, callStep, callEvent]
  have henq : ∀ {s : Player K} {x : XData}, s.call = some (.enqueue x) → GoesOn L s := fun {s x} hc => by
    refine GoesOn.step (a := .call) (t := { s with call := some (.drop x) }) ?_ rfl fun _ => hend rfl
    simp [Player.step, stepCall, hc, callStep, callEvent]
  have hcopy : ∀ {s : Player K} {x : XData}, s.call = some (.copy x) → GoesOn L s := fun {s x} hc => by
    refine GoesOn.step (a := .call) (t := { s with call := some (.enqueue x) }) ?_ rfl fun _ => henq rfl
    simp [Player.step, stepCall, hc, callStep, callEvent]
  cases pc with
  | exitTest | pauseTest | «section» => exact absurd (by rw [delivering, hc]; rfl) h
  | got x =>
    by_cases hx : x.size ≤ 0
    · refine GoesOn.step (a := .call) (t := { s with audio := { s.audio with pts := x.pts }, call := none }) ?_ rfl
        fun hw => ?_
      · simp [Player.step, stepCall, hc, callStep, callEvent, hx]
      · have hd : (none : Option XData) = s.delivering := congrArg Work.delivering hw
        exact absurd hd.symm h
    · refine GoesOn.step (a := .call) (t := { s with audio := { s.audio with pts := x.pts }, call := some (.copy x) }) ?_
        rfl fun _ => hcopy rfl
      simp [Player.step, stepCall, hc, callStep, callEvent, hx]
  | copy => exact hcopy hc
  | enqueue => exact henq hc
  | drop => exact hend hc

theorem goesOn_frames (hx : s.isExit .audioPlay = false) (hp : s.isPause .audioPlay = false)
    (hf : s.audio.frames ≠ []) : GoesOn L s := by
  have hsec : ∀ {s : Player K}, s.audio.frames ≠ [] → s.call = some .section → GoesOn L s := fun {s} hf hc => by
    rcases hr : s.audio.frames with _ | ⟨x, rest⟩
    · exact absurd hr hf
    · refine GoesOn.event (a := .call) (e := .play x)
        (t := { s with audio := { s.audio with frames := rest }, call := some (.got x), log := .play x :: s.log }) ?_
        rfl rfl rfl
      simp [Player.step, stepCall, hc, callStep, callEvent, hr]
  have hpause : ∀ {s : Player K}, s.isPause .audioPlay = false → s.audio.frames ≠ [] → s.call = some .pauseTest →
      GoesOn L s := fun {s} hp hf hc => by
    refine GoesOn.step (a := .call) (t := { s with call := some .section }) ?_ rfl fun _ => hsec hf rfl
    simp [Player.step, stepCall, hc, callStep, callEvent, hp]
  have hexit : ∀ {s : Player K}, s.isExit .audioPlay = false → s.isPause .audioPlay = false → s.audio.frames ≠ [] →
      s.call = some .exitTest → GoesOn L s := fun {s} hx hp hf hc => by
    refine GoesOn.step (a := .call) (t := { s with call := some .pauseTest }) ?_ rfl fun _ => hpause hp hf rfl
    simp [Player.step, stepCall, hc, callStep, callEvent, hx]
  rcases hc : s.call with _ | pc
  · refine GoesOn.step (a := .device) (t := { s with call := some .exitTest }) ?_ rfl fun _ => hexit hx hp hf rfl
    simp [Player.step, deviceStep, hc]
  · cases pc with
    | exitTest => exact hexit hx hp hf hc
    | pauseTest => exact hpause hp hf hc
    | «section» => exact hsec hf hc
    | _ =>
      refine goesOn_delivering fun he => ?_
      rw [delivering, hc] at he
      cases he

/-! ### The sync thread -/

theorem goesOn_sync (hx : s.isExit .player = false) (hm : s.mux = false) (hn : s.syncW n ≠ .gone)
    (hne : (s.dec .video).synPts ≠ s.audio.pts) : GoesOn L s := by
  have hsec : ∀ {s : Player K}, s.mux = false → (s.dec .video).synPts ≠ s.audio.pts → s.syncW n = .section →
      GoesOn L s := fun {s} hm hne hc => by
    refine GoesOn.step (a := .sync n) (t := ((s.setDec .video { s.dec .video with synPts := s.audio.pts }).emit
      (.synced s.audio.pts)).setSync n .exitTest) ?_ rfl fun hw => ?_
    · simp [Player.step, syncStep, hc, hm]
    · have hw : ((s.setDec .video { s.dec .video with synPts := s.audio.pts }).dec .video).synPts = _ :=
        congrArg Work.synPts hw
      rw [setDec_self] at hw
      exact absurd hw.symm hne
  rcases hc : s.syncW n with _ | _ | _
  · exact absurd hc hn
  · refine GoesOn.step (a := .sync n) (t := s.setSync n .section) ?_ rfl fun _ =>
      hsec hm hne (Function.update_self ..)
    simp [Player.step, syncStep, hc, hx]
  · exact hsec hm hne hc

/-! ### The decoders -/

/-- A worker in its section that waits for nothing. -/
theorem goesOn_locked {d : Dec} (hl : (s.decW d n).locked = true)
    (hm : ∀ x f, s.decW d n = .resample x f → 0 < f.size → s.resampleMux = false)
    (hr : s.audio.frames.length ≤ s.audio.maxFrame) : GoesOn L s := by
  have hself : ∀ (s : Player K) (pc : DecPc), (s.setDecW d n pc).decW d n = pc := fun s pc => by
    rw [setDecW_decW, if_pos ⟨rfl, rfl⟩]
  have hdrop : ∀ {s : Player K} {x : XData}, s.decW d n = .drop x → GoesOn L s := fun {s x} hc => by
    refine GoesOn.event (a := .dec d n) (e := .drop (.decoder d n) x)
      (t := ((s.emit (.drop (.decoder d n) x)).setPacks d none).setDecW d n .exitTest) ?_ rfl rfl rfl
    simp [Player.step, decStep, hc]
  have hnotify : ∀ {s : Player K} {x f : XData}, s.decW d n = .notify x f → GoesOn L s := fun {s x f} hc => by
    refine GoesOn.event (a := .dec d n) (e := .notify d f)
      (t := (s.emit (.notify d f)).setDecW d n (if d = .video then .innerExit x else .resample x f)) ?_ rfl rfl rfl
    simp [Player.step, decStep, hc]
  have hrecv : ∀ {s : Player K} {x : XData}, s.decW d n = .recv x → GoesOn L s := fun {s x} hc => by
    let r := (s.dec d).recvFrame L
    by_cases hr : r.1.data = .null
    · refine GoesOn.step (a := .dec d n) (t := (s.setDec d r.2).setDecW d n (.drop x)) ?_ rfl fun _ => hdrop (hself _ _)
      simp [Player.step, decStep, hc, r, hr]
    · refine GoesOn.step (a := .dec d n) (t := (s.setDec d r.2).setDecW d n (.notify x r.1)) ?_ rfl
        fun _ => hnotify (hself _ _)
      simp [Player.step, decStep, hc, r, hr]
  have hinner : ∀ {s : Player K} {x : XData}, s.decW d n = .innerExit x → GoesOn L s := fun {s x} hc => by
    rcases hx : s.isExit (.dec d) with _ | _
    · refine GoesOn.step (a := .dec d n) (t := s.setDecW d n (.recv x)) ?_ rfl fun _ => hrecv (hself _ _)
      simp [Player.step, decStep, hc, hx]
    · refine GoesOn.step (a := .dec d n) (t := s.setDecW d n (.drop x)) ?_ rfl fun _ => hdrop (hself _ _)
      simp [Player.step, decStep, hc, hx]
  have hpush : ∀ {s : Player K} {x y : XData}, s.audio.frames.length ≤ s.audio.maxFrame → s.decW d n = .pcmSection x y →
      GoesOn L s := fun {s x y} hr hc => by
    refine GoesOn.event (a := .dec d n) (e := .queued y) (t := ({ s with audio := { s.audio with
      frames := s.audio.frames ++ [y] } }.emit (.queued y)).setDecW d n (.innerExit x)) ?_ rfl rfl rfl
    simp [Player.step, decStep, hc, IAudioPlay.update, not_lt.mpr hr]
  rcases hpc : s.decW d n with _ | _ | _ | _ | x | x | x | ⟨x, f⟩ | ⟨x, f⟩ | ⟨x, y⟩ | ⟨x, y⟩ | x
  case gone | exitTest | pauseTest | lock =>
    rw [hpc] at hl
    cases hl
  case send =>
    refine GoesOn.event (a := .dec d n) (e := .send (.decoder d n) x)
      (t := ((s.setDec d ((s.dec d).sendPacket L x).2).emit (.send (.decoder d n) x)).setDecW d n
        (if ((s.dec d).sendPacket L x).1 = true then .innerExit x else .drop x)) ?_ rfl rfl rfl
    simp [Player.step, decStep, hpc]
  case innerExit => exact hinner hpc
  case recv => exact hrecv hpc
  case notify => exact hnotify hpc
  case resample =>
    by_cases hf : f.size ≤ 0
    · refine GoesOn.step (a := .dec d n) (t := s.setDecW d n (.innerExit x)) ?_ rfl fun _ => hinner (hself _ _)
      simp [Player.step, decStep, hpc, hf]
    · have hmux := hm x f hpc (not_le.mp hf)
      rcases hres : s.resample.resample L s.fresh f with _ | _ | y
      · refine GoesOn.step (a := .dec d n) (t := s.setDecW d n (.innerExit x)) ?_ rfl fun _ => hinner (hself _ _)
        simp [Player.step, decStep, hpc, hf, hmux, hres]
      · refine GoesOn.step (a := .dec d n) (t := { s with resampleMux := true }.setDecW d n (.innerExit x)) ?_ rfl
          fun _ => hinner (hself _ _)
        simp [Player.step, decStep, hpc, hf, hmux, hres]
      · refine GoesOn.event (a := .dec d n) (e := .resampled y)
          (t := ({ s with fresh := s.fresh + 1 }.emit (.resampled y)).setDecW d n (.pcmExit x y)) ?_ rfl rfl rfl
        simp [Player.step, decStep, hpc, hf, hmux, hres]
  case pcmExit =>
    rcases hx : s.isExit .audioPlay with _ | _
    · refine GoesOn.step (a := .dec d n) (t := s.setDecW d n (.pcmSection x y)) ?_ rfl fun _ => hpush hr (hself _ _)
      simp [Player.step, decStep, hpc, hx]
    · refine GoesOn.step (a := .dec d n) (t := s.setDecW d n (.innerExit x)) ?_ rfl fun _ => hinner (hself _ _)
      simp [Player.step, decStep, hpc, hx]
  case pcmSection => exact hpush hr hpc
  case drop => exact hdrop hpc

/-- A worker outside, with a packet to decode. -/
theorem goesOn_pop {d : Dec} (hx : s.isExit (.dec d) = false) (hp : s.isPause (.dec d) = false)
    (hm : s.packsMutex d = none) (hg : gateClosed (s.dec d) = false) (hpk : (s.dec d).packs ≠ [])
    (hn : s.decW d n ≠ .gone) (hl : (s.decW d n).locked = false) : GoesOn L s := by
  have hself : ∀ (s : Player K) (pc : DecPc), (s.setDecW d n pc).decW d n = pc := fun s pc => by
    rw [setDecW_decW, if_pos ⟨rfl, rfl⟩]
  have hlock : ∀ {s : Player K}, s.packsMutex d = none → gateClosed (s.dec d) = false → (s.dec d).packs ≠ [] →
      s.decW d n = .lock → GoesOn L s := fun {s} hm hg hpk hc => by
    rcases hr : (s.dec d).packs with _ | ⟨x, rest⟩
    · exact absurd hr hpk
    · refine GoesOn.event (a := .dec d n) (e := .pop d n x) (t := (s.popped d n x rest).setDecW d n (.send x)) ?_ rfl rfl
        rfl
      simp [Player.step, decStep, hc, hm, hg, hr]
  have hpause : ∀ {s : Player K}, s.isPause (.dec d) = false → s.packsMutex d = none → gateClosed (s.dec d) = false →
      (s.dec d).packs ≠ [] → s.decW d n = .pauseTest → GoesOn L s := fun {s} hp hm hg hpk hc => by
    refine GoesOn.step (a := .dec d n) (t := s.setDecW d n .lock) ?_ rfl fun _ => hlock hm hg hpk (hself _ _)
    simp [Player.step, decStep, hc, hp]
  rcases hpc : s.decW d n with _ | _ | _ | _ | x | x | x | ⟨x, f⟩ | ⟨x, f⟩ | ⟨x, y⟩ | ⟨x, y⟩ | x
  case gone => exact absurd hpc hn
  case exitTest =>
    refine GoesOn.step (a := .dec d n) (t := s.setDecW d n .pauseTest) ?_ rfl fun _ => hpause hp hm hg hpk (hself _ _)
    simp [Player.step, decStep, hpc, hx]
  case pauseTest => exact hpause hp hm hg hpk hpc
  case lock => exact hlock hm hg hpk hpc
  all_goals
    rw [hpc] at hl
    cases hl

/-! ### The demuxer -/

/-- `d` can take a packet from the demuxer. -/
structure Takes (d : Dec) (s : Player K) : Prop where
  exit : s.isExit (.dec d) = false
  free : s.packsMutex d = none
  space : (s.dec d).packs.length < (s.dec d).maxList

/-- The demuxer can read on. -/
structure Reads (s : Player K) : Prop where
  exit : s.isExit .demux = false
  pause : s.isPause .demux = false
  unread : s.demux.unread ≠ []

theorem goesOn_read (hr : Reads s) (hpc : s.demuxW n = .exitTest ∨ s.demuxW n = .pauseTest ∨ s.demuxW n = .read) :
    GoesOn L s := by
  have hread : ∀ {s : Player K}, Reads s → s.demuxW n = .read → GoesOn L s := fun {s} hr hc => by
    refine GoesOn.step (a := .demux n) (t := (s.readBy (.demux n)).2.setDemux n
      (if 0 < (s.readBy (.demux n)).1.size then .notify (s.readBy (.demux n)).1 else .exitTest)) ?_ rfl fun hw => ?_
    · simp [Player.step, demuxStep, hc]
    · have hu : (s.readBy (.demux n)).2.demux.unread.length = s.demux.unread.length := congrArg Work.unread hw
      rw [unread_readBy] at hu
      rcases he : s.demux.unread with _ | ⟨x, xs⟩
      · exact absurd he hr.unread
      · rw [he] at hu
        exact absurd hu (Nat.lt_succ_self _).ne
  have hpause : ∀ {s : Player K}, Reads s → s.demuxW n = .pauseTest → GoesOn L s := fun {s} hr hc => by
    refine GoesOn.step (a := .demux n) (t := s.setDemux n .read) ?_ rfl fun _ =>
      hread ⟨hr.exit, hr.pause, hr.unread⟩ (Function.update_self ..)
    simp [Player.step, demuxStep, hc, hr.pause]
  rcases hpc with hc | hc | hc
  · refine GoesOn.step (a := .demux n) (t := s.setDemux n .pauseTest) ?_ rfl fun _ =>
      hpause ⟨hr.exit, hr.pause, hr.unread⟩ (Function.update_self ..)
    simp [Player.step, demuxStep, hc, hr.exit]
  · exact hpause hr hc
  · exact hread hr hc

theorem goesOn_store {d : Dec} {x : XData} (ht : Takes d s)
    (hpc : s.demuxW n = .update (.exitTest d x) ∨ s.demuxW n = .update (.section d x)) : GoesOn L s := by
  have hsec : ∀ {s : Player K}, Takes d s → s.demuxW n = .update (.section d x) → GoesOn L s := fun {s} ht hc => by
    cases d with
    | video =>
      refine GoesOn.event (a := .demux n) (e := .push (.demux n) .video x)
        (t := (s.pushed (.demux n) .video x).setDemux n (.update (.enter .audio x))) ?_ rfl rfl rfl
      simp [Player.step, demuxStep, hc, update, ht.free, ht.space, UpdatePc.next]
    | audio =>
      refine GoesOn.event (a := .demux n) (e := .push (.demux n) .audio x)
        (t := { s.pushed (.demux n) .audio x with demuxMux := none }.setDemux n .exitTest) ?_ rfl rfl rfl
      simp [Player.step, demuxStep, hc, update, ht.free, ht.space, UpdatePc.next]
  rcases hpc with hc | hc
  · refine GoesOn.step (a := .demux n) (t := s.setDemux n (.update (.section d x))) ?_ rfl fun _ =>
      hsec ⟨ht.exit, ht.free, ht.space⟩ (Function.update_self ..)
    simp [Player.step, demuxStep, hc, update, ht.exit]
  · exact hsec ht hc

/-- What the worker at `pc` needs in order to go on. -/
def Unparked (s : Player K) (pc : DemuxPc) : Prop :=
  match s.dest pc with
  | some d => Takes d s
  | none => Reads s

theorem unparked_audio {x : XData} : s.Unparked (.update (.enter .audio x)) ↔
    if x.isAudio = (s.dec .audio).isAudio then Takes .audio s else Reads s := by
  by_cases ha : x.isAudio = (s.dec .audio).isAudio <;> simp [Unparked, dest, ha]

theorem unparked_video {x : XData} : s.Unparked (.update (.enter .video x)) ↔
    if x.isAudio = (s.dec .video).isAudio then Takes .video s else s.Unparked (.update (.enter .audio x)) := by
  by_cases hv : x.isAudio = (s.dec .video).isAudio <;> simp [Unparked, dest, hv]

theorem Unparked.congr {pc : DemuxPc} (h : s.Unparked pc) (hd : t.dec = s.dec) (hF : t.flags = s.flags)
    (hP : t.packsMutex = s.packsMutex) (hD : t.demux = s.demux) : t.Unparked pc := by
  have hdest : t.dest pc = s.dest pc := by
    unfold dest
    rw [hd]
  unfold Unparked at h ⊢
  rw [hdest]
  generalize s.dest pc = o at h ⊢
  rcases o with _ | d
  · have h : Reads s := h
    exact ⟨(isExit_congr hF _).trans h.exit, (isPause_congr hF _).trans h.pause, hD ▸ h.unread⟩
  · have h : Takes d s := h
    exact ⟨(isExit_congr hF _).trans h.exit, hP ▸ h.free, hd ▸ h.space⟩

theorem goesOn_demux (hM : s.demuxMux = none ∨ ∃ u, s.demuxW n = .update u) (hn : s.demuxW n ≠ .gone)
    (hu : s.Unparked (s.demuxW n)) : GoesOn L s := by
  have haudio : ∀ {s : Player K} {x : XData}, s.Unparked (.update (.enter .audio x)) →
      s.demuxW n = .update (.enter .audio x) → GoesOn L s := fun {s x} hu hc => by
    rw [unparked_audio] at hu
    by_cases ha : x.isAudio = (s.dec .audio).isAudio
    · rw [if_pos ha] at hu
      refine GoesOn.step (a := .demux n) (t := s.setDemux n (.update (.exitTest .audio x))) ?_ rfl fun _ =>
        goesOn_store ⟨hu.exit, hu.free, hu.space⟩ (.inl (Function.update_self ..))
      simp [Player.step, demuxStep, hc, update, ha]
    · rw [if_neg ha] at hu
      refine GoesOn.step (a := .demux n) (t := { s with demuxMux := none }.setDemux n .exitTest) ?_ rfl fun _ =>
        goesOn_read ⟨hu.exit, hu.pause, hu.unread⟩ (.inl (Function.update_self ..))
      simp [Player.step, demuxStep, hc, update, ha, UpdatePc.next]
  have hvideo : ∀ {s : Player K} {x : XData}, s.Unparked (.update (.enter .video x)) →
      s.demuxW n = .update (.enter .video x) → GoesOn L s := fun {s x} hu hc => by
    rw [unparked_video] at hu
    by_cases hv : x.isAudio = (s.dec .video).isAudio
    · rw [if_pos hv] at hu
      refine GoesOn.step (a := .demux n) (t := s.setDemux n (.update (.exitTest .video x))) ?_ rfl fun _ =>
        goesOn_store ⟨hu.exit, hu.free, hu.space⟩ (.inl (Function.update_self ..))
      simp [Player.step, demuxStep, hc, update, hv]
    · rw [if_neg hv] at hu
      refine GoesOn.step (a := .demux n) (t := s.setDemux n (.update (.enter .audio x))) ?_ rfl fun _ =>
        haudio (hu.congr rfl rfl rfl rfl) (Function.update_self ..)
      simp [Player.step, demuxStep, hc, update, hv, UpdatePc.next]
  rcases hpc : s.demuxW n with _ | _ | _ | _ | x | u <;> rw [hpc] at hu
  case gone => exact absurd hpc hn
  case exitTest => exact goesOn_read hu (.inl hpc)
  case pauseTest => exact goesOn_read hu (.inr (.inl hpc))
  case read => exact goesOn_read hu (.inr (.inr hpc))
  case notify =>
    rcases hM with hM | ⟨u, hM⟩
    · have hu : s.Unparked (.update (.enter .video x)) := hu
      refine GoesOn.step (a := .demux n)
        (t := { s with demuxMux := some (.demux n) }.setDemux n (.update (.enter .video x))) ?_ rfl fun _ =>
        hvideo (hu.congr rfl rfl rfl rfl) (Function.update_self ..)
      simp [Player.step, demuxStep, hpc, hM]
    · cases hpc.symm.trans hM
  case update =>
    cases u with
    | enter d x =>
      cases d with
      | video => exact hvideo hu hpc
      | audio => exact haudio hu hpc
    | exitTest d x => exact goesOn_store hu (.inl hpc)
    | «section» d x => exact goesOn_store hu (.inr hpc)

/-! ### The player's mutex -/

/-- Whether the player's mutex will be held after the commands `cs`. -/
def muxAfter : List Cmd → Bool → Bool
  | [], b => b
  | .lock :: cs, _ => muxAfter cs true
  | .unlock :: cs, _ | .seek .. :: cs, _ => muxAfter cs false
  | _ :: cs, b => muxAfter cs b

theorem Call.muxAfter_program (c : Call) : muxAfter c.program false = false := by
  cases c with
  | start sl => cases sl <;> rfl
  | _ => rfl

/-- Every call gives the player's mutex back. -/
theorem muxAfter_step (h : muxAfter s.ui s.mux = false) {a : Act} (hs : Steps L s a t) :
    muxAfter t.ui t.mux = false := by
  cases hs with
  | demux hd =>
    rw [hd.eq]
    exact h
  | dec hd =>
    rw [hd.eq]
    exact h
  | request hui =>
    rw [hui] at h
    have hm : s.mux = false := h
    show muxAfter (Call.program _) s.mux = false
    rw [hm]
    exact Call.muxAfter_program _
  | @ui c cs u cs' hui hc =>
    rw [hui] at h
    show muxAfter cs' u.mux = false
    cases hc with
    | sought hk =>
      cases hk
      exact h
    | @spawn o => cases o <;> exact h
    | openFailed => rfl
    | _ => exact h
  | _ => exact h

/-! ### Nothing can happen -/

/-- What a thread in a halted state leaves alone. -/
structure Poll (s t : Player K) : Prop where
  dec : t.dec = s.dec
  packsMutex : t.packsMutex = s.packsMutex
  resampleMux : t.resampleMux = s.resampleMux
  demux : t.demux = s.demux
  audio : t.audio = s.audio
  delivering : t.delivering = s.delivering
  events : t.log.filter (fun e => !e.isSynced) = s.log.filter fun e => !e.isSynced

theorem Poll.work (h : Poll s t) : t.work = s.work := by
  unfold Player.work
  rw [h.events, h.demux, h.delivering, h.audio, h.dec]

theorem Poll.parked (h : Poll s t) (pc : DemuxPc) : t.Parked pc ↔ s.Parked pc := by
  unfold Parked dest
  rw [h.dec, h.packsMutex, h.demux]

theorem Halted.of_poll (h : Halted s) (hp : Poll s t) (hj : s.Jammed → t.Jammed)
    (hD : ∀ n, t.demuxW n ≠ .gone → s.Parked (t.demuxW n)) : Halted t ∧ t.work = s.work := by
  have hidle : ∀ d, s.Idle d → t.Idle d := fun d hi => by
    unfold Idle
    rw [hp.packsMutex, hp.dec]
    exact hi
  refine ⟨⟨?_, hp.delivering.trans h.delivering, ?_, hidle _ h.video, h.audio.imp hj (hidle _),
    fun n hn => (hp.parked _).mpr (hD n hn)⟩, hp.work⟩
  · rw [hp.audio]
    exact h.frames
  · rw [hp.dec, hp.audio]
    exact h.synced

theorem Updates.poll {w : Holder} {u : UpdatePc} {r : Option UpdatePc} (hu : Updates w s u t r)
    (hx : ∀ d, s.isExit (.dec d) = false) (hp : s.Parked (.update u)) :
    t = s ∧ match r with | some u' => s.Parked (.update u') | none => s.demux.unread = [] := by
  cases hu with
  | @skip d x hd =>
    cases d with
    | video =>
      have hp : s.Parked (.update (.enter .audio x)) := by simpa only [Parked, dest, if_neg hd] using hp
      exact ⟨rfl, hp⟩
    | audio =>
      have hp : s.demux.unread = [] := by simpa only [Parked, dest, if_neg hd] using hp
      exact ⟨rfl, hp⟩
  | @accept d x hd =>
    cases d with
    | video =>
      refine ⟨rfl, ?_⟩
      simpa only [Parked, dest, if_pos hd] using hp
    | audio =>
      refine ⟨rfl, ?_⟩
      simpa only [Parked, dest, if_pos hd] using hp
  | lost he => exact absurd (he.symm.trans (hx _)) Bool.false_ne_true.symm
  | go | full => exact ⟨rfl, hp⟩
  | @push d x hm hn =>
    rcases (hp : _ ∨ _) with hp | hp
    · exact absurd hm hp
    · exact absurd hn (not_lt.mpr hp)

/-- A parked worker of `demux` stays so. -/
theorem Demuxes.poll {pc pc' : DemuxPc} (hd : Demuxes n s pc t pc') (hx : ∀ d, s.isExit (.dec d) = false)
    (hp : pc ≠ .gone → s.Parked pc) : Poll s t ∧ (pc' ≠ .gone → s.Parked pc') := by
  have hself : Poll s s := ⟨rfl, rfl, rfl, rfl, rfl, rfl, rfl⟩
  have hmux : ∀ m, Poll s { s with demuxMux := m } := fun m => ⟨rfl, rfl, rfl, rfl, rfl, rfl, rfl⟩
  have hnil : s.demux.unread = [] → (s.readBy (.demux n)).1 = {} := fun hu =>
    congrArg Prod.fst (FFDemux.read_nil s.fresh hu)
  cases hd with
  | exit => exact ⟨hself, fun hn => absurd rfl hn⟩
  | more | paused | run => exact ⟨hself, fun _ => hp nofun⟩
  | read hr =>
    rw [hnil (hp nofun)] at hr
    cases hr
  | nothing =>
    have hu : s.demux.unread = [] := hp nofun
    have hrd := FFDemux.read_nil s.fresh hu
    refine ⟨?_, fun _ => hu⟩
    rw [readBy_eq, hrd]
    exact ⟨rfl, rfl, rfl, rfl, rfl, rfl, rfl⟩
  | notify => exact ⟨hmux _, fun _ => hp nofun⟩
  | update hu =>
    obtain ⟨rfl, h⟩ := hu.poll hx (hp nofun)
    exact ⟨hself, fun _ => h⟩
  | done hu =>
    obtain ⟨rfl, h⟩ := hu.poll hx (hp nofun)
    exact ⟨hmux _, fun _ => h⟩

/-- A worker of a decoder that finds nothing to decode only moves. -/
theorem Decodes.poll {d : Dec} {pc' : DecPc} (hd : Decodes L d n s (s.decW d n) t pc')
    (hl : (s.decW d n).locked = false) (hi : s.packsMutex d = none → s.Idle d) : t = s := by
  generalize s.decW d n = pc at hd hl
  cases hd with
  | exit | more | paused | run | shut | empty => rfl
  | pop hm hg hpk =>
    rcases (hi hm).2 with he | he
    · rw [he] at hpk
      cases hpk
    · exact absurd (he.symm.trans hg) Bool.false_ne_true.symm
  | _ => cases hl

theorem Halted.step (h : Halted s) (hH : Holds s) (hx : ∀ d, s.isExit (.dec d) = false) {a : Act} (hs : Steps L s a t)
    (ha : a.threads = true) : Halted t ∧ t.work = s.work := by
  cases hs with
  | @demux n t pc hd =>
    obtain ⟨hp, hpk⟩ := hd.poll hx (h.demux n)
    have hpoll : Poll s (t.setDemux n pc) :=
      ⟨hp.dec, hp.packsMutex, hp.resampleMux, hp.demux, hp.audio, hp.delivering, hp.events⟩
    refine h.of_poll hpoll ?_ fun m hm => ?_
    · rintro ⟨j, x, f, hj, hf, hr⟩
      exact ⟨j, x, f, by rw [← hj]; exact congrFun (congrFun (congrArg Player.decW hd.eq) _) _, hf,
        hp.resampleMux.trans hr⟩
    · have hw : t.demuxW = s.demuxW := (congrArg Player.demuxW hd.eq :)
      change Function.update t.demuxW n pc m ≠ _ at hm
      show s.Parked (Function.update t.demuxW n pc m)
      by_cases hmn : m = n
      · subst hmn
        rw [Function.update_self] at hm ⊢
        exact hpk hm
      · rw [Function.update_of_ne hmn, hw] at hm ⊢
        exact h.demux m hm
  | @dec d n t pc hd =>
    rcases hl : (s.decW d n).locked with _ | _
    · have hi : s.packsMutex d = none → s.Idle d := fun hm => by
        cases d with
        | video => exact h.video
        | audio =>
          rcases h.audio with ⟨j, x, f, hj, -⟩ | hi
          · have hlj := (hH.holder .audio j).mpr (by rw [hj]; rfl)
            rw [hm] at hlj
            cases hlj
          · exact hi
      have ht := hd.poll hl hi
      subst ht
      refine h.of_poll ⟨rfl, rfl, rfl, rfl, rfl, rfl, rfl⟩ ?_ h.demux
      rintro ⟨j, x, f, hj, hf, hr⟩
      refine ⟨j, x, f, ?_, hf, hr⟩
      rw [setDecW_decW, if_neg, hj]
      rintro ⟨rfl, rfl⟩
      rw [hj] at hl
      cases hl
    · -- it waits for the mutex of `Resample`
      have hm := (hH.holder d n).mpr hl
      have hd' : d = .audio := by
        cases d with
        | video => exact absurd (hm.symm.trans h.video.1) nofun
        | audio => rfl
      subst hd'
      rcases h.audio with ⟨j, x, f, hj, hf, hr⟩ | hi
      · have hmj := (hH.holder .audio j).mpr (by rw [hj]; rfl)
        obtain rfl : j = n := Option.some.inj (hmj.symm.trans hm)
        rw [hj] at hd
        cases hd with
        | noData hn => exact absurd hf (not_lt.mpr hn)
        | refused _ hn | leaked _ hn | pcm _ hn => exact absurd (hn.symm.trans hr) Bool.false_ne_true
      · exact absurd (hm.symm.trans hi.1) nofun
  | syncExit | syncMore => exact h.of_poll ⟨rfl, rfl, rfl, rfl, rfl, rfl, rfl⟩ id h.demux
  | sync =>
    have hdec : Function.update s.dec .video { s.dec .video with synPts := s.audio.pts } = s.dec := by
      rw [← h.synced]
      exact Function.update_eq_self ..
    exact h.of_poll ⟨hdec, rfl, rfl, rfl, rfl, rfl, rfl⟩ id h.demux
  | device hc =>
    refine h.of_poll ⟨rfl, rfl, rfl, rfl, rfl, ?_, rfl⟩ id h.demux
    rw [h.delivering]
    rfl
  | @call pc hc =>
    have hb : pc.buffer = none := by
      have hb := h.delivering
      rw [Player.delivering, hc] at hb
      exact hb
    have hf := h.frames
    cases pc with
    | exitTest =>
      refine h.of_poll ⟨rfl, rfl, rfl, rfl, rfl, ?_, rfl⟩ id h.demux
      rw [h.delivering]
      simp only [Player.delivering, callStep]
      split <;> rfl
    | pauseTest =>
      refine h.of_poll ⟨rfl, rfl, rfl, rfl, rfl, ?_, rfl⟩ id h.demux
      rw [h.delivering]
      simp only [Player.delivering, callStep]
      split <;> rfl
    | «section» =>
      refine h.of_poll ⟨rfl, rfl, rfl, rfl, ?_, ?_, ?_⟩ id h.demux
      · simp only [callStep, hf]
      · rw [h.delivering]
        simp only [Player.delivering, callStep, hf]
        rfl
      · simp only [callEvent, hf]
        rfl
    | _ => cases hb
  | ui | request => cases ha

/-- What else holds of all reachable states. -/
structure Regular (s : Player K) : Prop where
  orderly : Orderly s
  bounded : Bounded s
  mux : muxAfter s.ui s.mux = false

theorem reach_regular (h : (player L).Reach Sys.any s) : Regular s := by
  refine ⟨reach_orderly h, reach_bounded h, h.inv (I := fun s => muxAfter s.ui s.mux = false) ?_ fun a s t hI _ hs =>
    muxAfter_step hI (steps hs)⟩
  rintro _ ⟨total, rfl⟩
  rfl

theorem halted_of_not_goesOn (h : Regular s) (hR : Running s) (hg : ¬ GoesOn L s) : Halted s := by
  have hH := h.orderly.holds
  have hf : s.audio.frames = [] := by
    by_contra hne
    exact hg (goesOn_frames (hR.isExit _) (hR.isPause _) hne)
  have hroom : s.audio.frames.length ≤ s.audio.maxFrame := by
    rw [hf]
    exact Nat.zero_le _
  have hmux : s.mux = false := by
    have hm := h.mux
    rw [hR.ui] at hm
    exact hm
  have hidle : ∀ d, s.packsMutex d = none → s.Idle d := fun d hm => by
    refine ⟨hm, ?_⟩
    by_contra hno
    rw [not_or] at hno
    obtain ⟨n, hn⟩ := hR.dec d
    have hl : (s.decW d n).locked = false := by
      rcases hl : (s.decW d n).locked with _ | _
      · rfl
      · exact absurd ((hH.holder d n).mpr hl) (by rw [hm]; exact nofun)
    exact hg (goesOn_pop (hR.isExit _) (hR.isPause _) hm (eq_false_of_ne_true hno.2) hno.1 hn hl)
  refine ⟨hf, ?_, ?_, ?_, ?_, fun n hn => ?_⟩
  · by_contra hne
    exact hg (goesOn_delivering hne)
  · by_contra hne
    obtain ⟨n, hn⟩ := hR.sync
    exact hg (goesOn_sync (hR.isExit _) hmux hn hne)
  · rcases hm : s.packsMutex .video with _ | n
    · exact hidle _ hm
    · refine absurd (goesOn_locked ((hH.holder .video n).mp hm) (fun x f hx => ?_) hroom) hg
      have hv := h.bounded.video n
      rw [hx] at hv
      cases hv
  · rcases hm : s.packsMutex .audio with _ | n
    · exact .inr (hidle _ hm)
    · refine .inl ?_
      by_contra hj
      refine hg (goesOn_locked ((hH.holder .audio n).mp hm) (fun x f hx hpos => ?_) hroom)
      exact eq_false_of_ne_true fun hr => hj ⟨n, x, f, hx, hpos, hr⟩
  · by_contra hp
    refine hg (goesOn_demux ?_ hn ?_)
    · rcases hm : s.demuxMux with _ | w
      · exact .inl rfl
      · have hN := (h.orderly.observed.holder w).mp hm
        cases w with
        | demux m =>
          obtain ⟨u, hu⟩ : ∃ u, s.demuxW m = .update u := by
            have hN : (s.demuxW m).updating = true := hN
            cases hw : s.demuxW m with
            | update u => exact ⟨u, rfl⟩
            | _ =>
              rw [hw] at hN
              cases hN
          obtain ⟨k, -, hk⟩ := hR.demux
          have hmk : m = k := by
            by_contra hne
            rw [hk m hne] at hu
            cases hu
          have hnk : n = k := by
            by_contra hne
            exact hn (hk n hne)
          exact .inr ⟨u, by rw [hnk, ← hmk, hu]⟩
        | ui =>
          have hN : Player.updating s.ui = true := hN
          rw [hR.ui] at hN
          cases hN
        | queue | decoder => cases hN
    · unfold Parked at hp
      unfold Unparked
      generalize s.dest (s.demuxW n) = o at hp ⊢
      rcases o with _ | d
      · exact ⟨hR.isExit _, hR.isPause _, hp⟩
      · rw [not_or, not_not, not_le] at hp
        exact ⟨hR.isExit _, hp.1, hp.2⟩

theorem Halted.not_goesOn (h : Halted s) (hH : Holds s) (hx : ∀ d, s.isExit (.dec d) = false) : ¬ GoesOn L s := by
  rintro ⟨t, ht, hne⟩
  have hI := ht.inv (I := fun t => Halted t ∧ Holds t ∧ (∀ d, t.isExit (.dec d) = false) ∧ t.work = s.work)
    ⟨h, hH, hx, rfl⟩ ?_
  · exact hne hI.2.2.2
  · rintro a u v ⟨h1, h2, h3, h4⟩ ha hs
    have hs := steps hs
    obtain ⟨h5, h6⟩ := h1.step h2 h3 hs ha
    have hF : v.flags = u.flags := by
      cases hs with
      | demux hd => exact (congrArg Player.flags hd.eq :)
      | dec hd => exact (congrArg Player.flags hd.eq :)
      | ui | request => cases ha
      | _ => rfl
    exact ⟨h5, h2.step hs, fun d => (isExit_congr hF _).trans (h3 d), h6.trans h4⟩

theorem goesOn_iff (h : Regular s) (hR : Running s) : GoesOn L s ↔ ¬ Halted s :=
  ⟨fun hg hh => hh.not_goesOn h.orderly.holds (fun _ => hR.isExit _) hg, fun hn => by
    by_contra hg
    exact hn (halted_of_not_goesOn h hR hg)⟩

/-! ### The cause -/

/-- What is never changed of a decoder but by the sync thread. -/
structure Fixed (D D' : FFDecode K) : Prop where
  maxList : D'.maxList = D.maxList
  synPts : D.synPts = 0 → D'.synPts = 0

theorem fixed_setDec {d : Dec} {D : FFDecode K} (h : Fixed (s.dec d) D) (d' : Dec) :
    Fixed (s.dec d') ((s.setDec d D).dec d') := by
  by_cases hd : d' = d
  · subst hd
    rw [setDec_self]
    exact h
  · rw [setDec_ne _ _ hd]
    exact ⟨rfl, id⟩

theorem sendPacket_fixed (D : FFDecode K) (x : XData) : Fixed D (D.sendPacket L x).2 := by
  rw [FFDecode.sendPacket_eq]
  split <;> exact ⟨rfl, id⟩

theorem recvFrame_fixed (D : FFDecode K) : Fixed D (D.recvFrame L).2 := by
  unfold FFDecode.recvFrame
  split <;> exact ⟨rfl, id⟩

theorem open_fixed (D : FFDecode K) (para : XParameter) (o : OpenCodec) : Fixed D (D.open L para o) := by
  unfold FFDecode.open
  split <;> exact ⟨rfl, id⟩

theorem Seeks.fixed {pos : ℚ} {f : SeekFrame} {pc : SeekPc} {r : Option SeekPc} (h : Seeks L pos f s pc t r) (d : Dec) :
    Fixed (s.dec d) (t.dec d) := by
  have hfields : ∀ {u : Player K}, u.dec d = { s.dec d with packs := (u.dec d).packs } → Fixed (s.dec d) (u.dec d) :=
    fun hu => by
      rw [hu]
      exact ⟨rfl, id⟩
  cases h with
  | @clear d' => exact fixed_setDec (D := (s.dec d').clear) ⟨rfl, fun _ => rfl⟩ d
  | @flush d' => exact fixed_setDec (D := (s.dec d').flush L) ⟨rfl, id⟩ d
  | nothing | early | wanted | picture =>
    rw [(s.readBy_still .ui).1]
    exact ⟨rfl, id⟩
  | update hu => exact hfields (hu.dec_fields d)
  | @done T u v hu => exact hfields (u := v) (hu.dec_fields d)
  | send => exact fixed_setDec (sendPacket_fixed _ _) d
  | found | before => exact fixed_setDec (recvFrame_fixed _) d
  | _ => exact ⟨rfl, id⟩

theorem Commands.fixed {c : Cmd} {cs cs' : List Cmd} (h : Commands L cs s c t cs') (d : Dec) :
    Fixed (s.dec d) (t.dec d) := by
  cases h with
  | @clear d' => exact fixed_setDec (D := (s.dec d').clear) ⟨rfl, fun _ => rfl⟩ d
  | @flush d' => exact fixed_setDec (D := (s.dec d').flush L) ⟨rfl, id⟩ d
  | @free d' => exact fixed_setDec (D := (s.dec d').free) ⟨rfl, id⟩ d
  | openDec => exact fixed_setDec (open_fixed _ _ _) d
  | @spawn o => cases o <;> exact ⟨rfl, id⟩
  | seek hk => exact hk.fixed d
  | sought hk => exact hk.fixed d
  | _ => exact ⟨rfl, id⟩

/-- There is space in an empty queue, and `aDecode` does not wait for the clock. -/
structure Equipped (s : Player K) : Prop where
  maxList : ∀ d, 0 < (s.dec d).maxList
  synPts : (s.dec .audio).synPts = 0

theorem Equipped.of_fixed (h : Equipped s) (hk : ∀ d, Fixed (s.dec d) (t.dec d)) : Equipped t :=
  ⟨fun d => (hk d).maxList ▸ h.maxList d, (hk .audio).synPts h.synPts⟩

theorem Equipped.step (h : Equipped s) {a : Act} (hs : Steps L s a t) : Equipped t := by
  cases hs with
  | @demux n t pc hd =>
    refine h.of_fixed fun d => ?_
    show Fixed (s.dec d) (t.dec d)
    rw [hd.dec_fields d]
    exact ⟨rfl, id⟩
  | @dec d' n t pc hd =>
    refine h.of_fixed fun d => ?_
    show Fixed (s.dec d) (t.dec d)
    rw [hd.dec_fields d]
    exact ⟨rfl, id⟩
  | sync =>
    let V : FFDecode K := { s.dec .video with synPts := s.audio.pts }
    refine ⟨fun d => ?_, (congrArg FFDecode.synPts (s.setDec_video_audio V)).trans h.synPts⟩
    exact (setDec_congr FFDecode.maxList s (D := V) rfl d).symm ▸ h.maxList d
  | ui hui hc => exact h.of_fixed fun d => hc.fixed d
  | _ => exact h.of_fixed fun _ => ⟨rfl, id⟩

theorem reach_equipped (h : (player L).Reach Sys.any s) : Equipped s := by
  refine h.inv (I := Equipped) ?_ fun a s t hI _ hs => hI.step (steps hs)
  rintro _ ⟨total, rfl⟩
  refine ⟨fun _ => ?_, rfl⟩
  show 0 < 100
  decide

/-- The audio is used up, and `vDecode` waits for the clock to pass the picture it has decoded last, or a worker of
`aDecode` waits for the mutex of `Resample`. -/
structure Starved (s : Player K) : Prop where
  halted : s.Halted
  cause : (s.dec .video).packs ≠ [] ∧ gateClosed (s.dec .video) = true ∨ s.Jammed

/-- If nothing can happen although something is left, it is one of the two waits. -/
theorem Halted.starved (h : Halted s) (he : Equipped s) (hR : Running s) (hl : Left s) : Starved s := by
  refine ⟨h, ?_⟩
  by_contra hno
  rw [not_or, not_and] at hno
  have hgate : ∀ d, gateClosed (s.dec d) = true → (s.dec d).packs = [] := fun d hg => by
    cases d with
    | video =>
      by_contra hp
      exact hno.1 hp hg
    | audio =>
      simp [gateClosed, he.synPts] at hg
  have hidle : ∀ d, s.Idle d := fun d => by
    cases d with
    | video => exact h.video
    | audio => exact h.audio.resolve_left hno.2
  have hpacks : ∀ d, (s.dec d).packs = [] := fun d => (hidle d).2.elim id (hgate d)
  rcases hl with hl | ⟨d, hd⟩ | hf
  · obtain ⟨n, hn, -⟩ := hR.demux
    have hp := h.demux n hn
    unfold Parked at hp
    generalize s.dest (s.demuxW n) = o at hp
    rcases o with _ | d
    · exact hl hp
    · rcases (hp : _ ∨ _) with hp | hp
      · exact hp (hidle d).1
      · rw [hpacks d] at hp
        exact absurd (he.maxList d) (not_lt.mpr hp)
  · exact hd (hpacks d)
  · exact hf h.frames

end Player

open Player

/-- After `Open` and `Start`, with packets or buffers left and without a call of the controller, something can happen
that is no idle poll exactly when the state is not starved. -/
theorem goes_on (L : FFmpeg K) {s : Player K} (h : (player L).Reach Sys.any s) (hR : Running s) (hl : Left s) :
    s.GoesOn L ↔ ¬ s.Starved :=
  ⟨fun hg hs => (goesOn_iff (reach_regular h) hR).mp hg hs.halted,
    fun hn => (goesOn_iff (reach_regular h) hR).mpr fun hh => hn (hh.starved (reach_equipped h) hR hl)⟩

/-- A player that was started once, with every flag of its threads unset. -/
def startedOnce (s : Player K) : Bool :=
  s.ui.isEmpty && decide (∀ o ∈ [Obj.player, .demux, .dec .video, .dec .audio, .audioPlay],
    s.isExit o = false ∧ s.isPause o = false) && decide (s.demuxN = 1 ∧ s.demuxW 0 ≠ .gone ∧
      s.decW .video 0 ≠ .gone ∧ s.decW .audio 0 ≠ .gone ∧ s.syncW 0 ≠ .gone)

theorem Player.Orderly.running {s : Player K} (h : Orderly s) (hs : startedOnce s = true) : Running s := by
  simp only [startedOnce, Bool.and_eq_true, decide_eq_true_eq, List.isEmpty_iff, List.forall_mem_cons,
    List.not_mem_nil, false_imp_iff, implies_true, and_true] at hs
  obtain ⟨⟨hui, hp, hd, hv, ha, hx⟩, hN, h1, h2, h3, h4⟩ := hs
  have hflags : ∀ o, s.isExit o = false ∧ s.isPause o = false := fun o => by
    cases o with
    | player => exact hp
    | demux => exact hd
    | dec d => cases d <;> assumption
    | audioPlay => exact hx
  refine ⟨hui, fun o => (hflags o).1, fun o => (hflags o).2, ⟨0, h1, fun m hm => ?_⟩, fun d => ?_, ⟨0, h4⟩⟩
  · exact h.observed.spawned.demux m (by omega)
  · cases d
    · exact ⟨0, h2⟩
    · exact ⟨0, h3⟩

set_option maxRecDepth 4000 in
/-- A file with one packet was started. -/
theorem goes_on_started : ∃ s : Player (List AVFrame), Running s ∧ s.demux.unread.length = 1 ∧ s.GoesOn bytewise := by
  have hr : ((player bytewise).exec (openStart [⟨0, 40, 40, [1]⟩] .opened) { demux := { total := 0 } }).map (fun s =>
      (startedOnce s, s.demux.unread.length, decide (s.demuxW 0 = .exitTest))) = some (true, 1, true) := by
    decide +kernel
  obtain ⟨s, hs, he⟩ := Option.map_eq_some_iff.mp hr
  simp only [Prod.mk.injEq, decide_eq_true_eq] at he
  obtain ⟨hst, hu, hpc⟩ := he
  have hreach : (player bytewise).Reach Sys.any s := ⟨_, ⟨0, rfl⟩, .of_exec_any hs⟩
  have hR : Running s := (reach_orderly hreach).running hst
  have hne : s.demux.unread ≠ [] := fun hn => by
    rw [hn] at hu
    cases hu
  refine ⟨s, hR, hu, (goes_on bytewise hreach hR (.inl hne)).mpr fun hS => ?_⟩
  have hp := hS.halted.demux 0 (by rw [hpc]; exact nofun)
  rw [hpc] at hp
  exact hne hp

/-- An audio packet of 50 ms is decoded and played, and of two later video packets the first is decoded. -/
def audioEnds : List Act :=
  openStart [⟨1, 50, 50, [0]⟩, ⟨0, 60, 60, [0]⟩, ⟨0, 100, 100, [0]⟩] .opened ++ List.replicate 8 (.demux 0) ++
    List.replicate 14 (.dec .audio 0) ++ .device :: List.replicate 7 .call ++ List.replicate 2 (.sync 0) ++
      List.replicate 16 (.demux 0) ++ List.replicate 10 (.dec .video 0)

set_option maxRecDepth 4000 in
/-- The audio of the file ends before its pictures. -/
theorem audio_ends_stuck : ¬ ∀ s : Player (List AVFrame), (player bytewise).Reach Sys.any s → Running s → Left s →
    s.GoesOn bytewise := by
  intro h
  have hr : ((player bytewise).exec audioEnds { demux := { total := 0 } }).map (fun s => (startedOnce s,
      decide (s.audio.frames = [] ∧ s.delivering = none ∧ (s.dec .video).synPts = s.audio.pts ∧
        s.packsMutex .video = none ∧ gateClosed (s.dec .video) = true ∧ (s.dec .video).packs ≠ [] ∧
          s.packsMutex .audio = none ∧ (s.dec .audio).packs = [] ∧ s.demuxW 0 = .exitTest ∧ s.demux.unread = []))) =
            some (true, true) := by decide +kernel
  obtain ⟨s, hs, he⟩ := Option.map_eq_some_iff.mp hr
  simp only [Prod.mk.injEq, decide_eq_true_eq] at he
  obtain ⟨hst, hf, hdl, hsy, hvm, hvg, hvp, ham, hap, hpc, hu⟩ := he
  have hreach : (player bytewise).Reach Sys.any s := ⟨_, ⟨0, rfl⟩, .of_exec_any hs⟩
  have hO := reach_orderly hreach
  have hR : Running s := hO.running hst
  have hH : Halted s := by
    refine ⟨hf, hdl, hsy, ⟨hvm, .inr hvg⟩, .inr ⟨ham, .inl hap⟩, fun n hn => ?_⟩
    obtain rfl : n = 0 := by
      obtain ⟨k, -, hk⟩ := hR.demux
      have h0 : (0 : ℕ) = k := by
        by_contra hne
        have hg := hk 0 hne
        rw [hpc] at hg
        cases hg
      by_contra hne
      exact hn (hk n (h0 ▸ hne))
    rw [hpc]
    exact hu
  exact hH.not_goesOn hO.holds (fun _ => hR.isExit _) (h s hreach hR (.inr (.inl ⟨.video, hvp⟩)))

end XPlayer
