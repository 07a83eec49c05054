import XPlayer.Decode
import XPlayer.AudioPlay
import XPlayer.Lib.System

/-!
# The player as a transition system

The state of an `IPlayer` with its parts, and one step for each mutex-protected section and each access
of a flag: the workers of `IDemux::Main`, `IDecode::Main` and `IPlayer::Main`, the `PlayCall` of the
device, and the one controller that calls `Open`, `Close`, `Start`, `SetPause` and `Seek` (its calls are
the programs `Call.program`). The bounded waits of `SetPause` and `Stop` may expire at any point, so they
are not steps. `log` is the history of the player, newest event first.

The observers are the ones `IPlayerBuilder` adds: `demux` has `vDecode` and then `aDecode`, `vDecode` has
the view, `aDecode` has `resample`, and `resample` has `audioPlay`.
-/

namespace XPlayer

/-- The two decoders, `vDecode` and `aDecode`. -/
inductive Dec
  | video
  | audio
  deriving DecidableEq

/-- The objects with the flags of an `XThread`. -/
inductive Obj
  | player
  | demux
  | dec (d : Dec)
  | audioPlay
  deriving DecidableEq

structure Flags where
  isExit : Bool := false
  isPause : Bool := false
  deriving DecidableEq

/-- Who holds a packet. -/
inductive Holder
  | demux (n : ℕ)
  | ui
  | queue (d : Dec)
  | decoder (d : Dec) (n : ℕ)
  deriving DecidableEq

/-- The calls of the controller. -/
inductive CallKind
  | open
  | close
  | start
  | setPause
  | seek
  deriving DecidableEq

inductive Event
  /-- `Read` returned the packet `x` to `w`. -/
  | read (w : Holder) (x : XData)
  /-- `w` stored `x` in the queue of `d`. -/
  | push (w : Holder) (d : Dec) (x : XData)
  /-- The worker `n` took `x` from the queue of `d`. -/
  | pop (d : Dec) (n : ℕ) (x : XData)
  | send (w : Holder) (x : XData)
  | drop (w : Holder) (x : XData)
  /-- `d` passed the frame `f` to `Notify`. -/
  | notify (d : Dec) (f : XData)
  | resampled (x : XData)
  /-- `audioPlay` stored the buffer `x`. -/
  | queued (x : XData)
  /-- `GetData` took the buffer `x`. -/
  | play (x : XData)
  | dropPcm (x : XData)
  /-- `IPlayer::Main` stored `apts` in `synPts` of `vDecode`. -/
  | synced (apts : ℤ)
  /-- `Close` or `Open` has emptied the queue of `d`. -/
  | cleared (d : Dec)
  /-- `Seek` has emptied the queue of `d`. -/
  | flushed (d : Dec)
  /-- `demux->Seek` has moved the file. -/
  | reposition
  | called (k : CallKind)
  | returned (k : CallKind) (re : Bool)
  deriving DecidableEq

/-! ### Where the threads are -/

/-- `Notify` of `demux`, in the `Update` of the observer `d`. -/
inductive UpdatePc
  /-- Before `if (pkt.isAudio != isAudio)`. -/
  | enter (d : Dec) (x : XData)
  | exitTest (d : Dec) (x : XData)
  | section (d : Dec) (x : XData)
  deriving DecidableEq

/-- `Notify` after the `Update` of `d`. -/
def UpdatePc.next : Dec → XData → Option UpdatePc
  | .video, x => some (.enter .audio x)
  | .audio, _ => none

/-- A worker of `IDemux::Main`. -/
inductive DemuxPc
  | gone
  | exitTest
  | pauseTest
  | read
  | notify (x : XData)
  | update (u : UpdatePc)
  deriving DecidableEq

/-- A worker of `IDecode::Main`; from `send` on it holds `packsMutex` and the packet `x`. -/
inductive DecPc
  | gone
  | exitTest
  | pauseTest
  | lock
  | send (x : XData)
  | innerExit (x : XData)
  | recv (x : XData)
  | notify (x f : XData)
  /-- In `Resample` of the frame `f`. -/
  | resample (x f : XData)
  /-- In `IAudioPlay::Update` of the buffer `y`. -/
  | pcmExit (x y : XData)
  | pcmSection (x y : XData)
  | drop (x : XData)
  deriving DecidableEq

/-- A worker of `IPlayer::Main`. -/
inductive SyncPc
  | gone
  | exitTest
  | section
  deriving DecidableEq

/-- `Seek` after `SetPause(true)`; `t` is `seekPts`. -/
inductive SeekPc
  | lock
  | clear (d : Dec)
  | flush (d : Dec)
  | clearFrames
  | reposition
  | target
  | exitTest (t : ℤ)
  | read (t : ℤ)
  | skip (t : ℤ) (x : XData)
  | notify (t : ℤ) (x : XData)
  | update (t : ℤ) (u : UpdatePc)
  | send (t : ℤ) (x : XData)
  | drop (t : ℤ) (x : XData)
  | recv (t : ℤ)
  | unlock

/-- A step of the controller. -/
inductive Cmd
  | lock
  | unlock
  | exit (o : Obj) (b : Bool)
  | pause (o : Obj) (b : Bool)
  /-- The thread that `Start` spawns. -/
  | spawn (o : Obj)
  | clear (d : Dec)
  | flush (d : Dec)
  | free (d : Dec)
  | clearFrames
  | closeDemux
  | openDemux (o : OpenInput)
  | videoPara
  | audioPara
  | openDec (d : Dec) (o : OpenCodec)
  | openResample (swr_init : Bool)
  | seek (pos : ℚ) (f : SeekFrame) (pc : SeekPc)
  /-- The call returns. -/
  | ret (k : CallKind)

inductive Call
  | open (o : OpenInput) (v a : OpenCodec) (swr_init : Bool)
  | close
  /-- `sl` is the outcome of `StartPlay`. -/
  | start (sl : Bool)
  | setPause (isP : Bool)
  | seek (pos : ℚ) (f : SeekFrame)

def Call.kind : Call → CallKind
  | .open .. => .open
  | .close => .close
  | .start _ => .start
  | .setPause _ => .setPause
  | .seek .. => .seek

/-! ### The state -/

structure Player (K : Type) where
  flags : Obj → Flags := fun _ => {}
  demux : FFDemux
  /-- Who holds the `IObserver::mux` of `demux`. -/
  demuxMux : Option Holder := none
  dec : Dec → FFDecode K := fun _ => {}
  /-- The worker that holds `packsMutex`. -/
  packsMutex : Dec → Option ℕ := fun _ => none
  resample : FFResample := {}
  /-- `FFResample::mux` has been left locked. -/
  resampleMux : Bool := false
  audio : IAudioPlay := {}
  /-- `IPlayer::mux` is held by the controller. -/
  mux : Bool := false
  demuxW : ℕ → DemuxPc := fun _ => .gone
  decW : Dec → ℕ → DecPc := fun _ _ => .gone
  syncW : ℕ → SyncPc := fun _ => .gone
  /-- The number of workers spawned so far. -/
  demuxN : ℕ := 0
  decN : Dec → ℕ := fun _ => 0
  syncN : ℕ := 0
  /-- The `PlayCall` in progress. -/
  call : Option CallPc := none
  /-- What the controller has still to do. -/
  ui : List Cmd := []
  /-- What `Open` or `Seek` will return. -/
  ret : Bool := false
  /-- The next handle. -/
  fresh : ℕ := 0
  log : List Event := []

inductive Act
  | demux (n : ℕ)
  | dec (d : Dec) (n : ℕ)
  | sync (n : ℕ)
  /-- The device calls `PlayCall`. -/
  | device
  | call
  | ui
  | request (c : Call)

namespace Player
variable {K : Type}

def emit (s : Player K) (e : Event) : Player K := { s with log := e :: s.log }

def setDemux (s : Player K) (n : ℕ) (pc : DemuxPc) : Player K :=
  { s with demuxW := Function.update s.demuxW n pc }

def setDecW (s : Player K) (d : Dec) (n : ℕ) (pc : DecPc) : Player K :=
  { s with decW := Function.update s.decW d (Function.update (s.decW d) n pc) }

def setSync (s : Player K) (n : ℕ) (pc : SyncPc) : Player K :=
  { s with syncW := Function.update s.syncW n pc }

def setDec (s : Player K) (d : Dec) (x : FFDecode K) : Player K :=
  { s with dec := Function.update s.dec d x }

def setPacks (s : Player K) (d : Dec) (m : Option ℕ) : Player K :=
  { s with packsMutex := Function.update s.packsMutex d m }

def isExit (s : Player K) (o : Obj) : Bool := (s.flags o).isExit

def isPause (s : Player K) (o : Obj) : Bool := (s.flags o).isPause

/-! ### `IDemux` -/

/-- `packs.push_back(x)` of the decoder `d` by `w`. -/
def pushed (w : Holder) (d : Dec) (x : XData) (s : Player K) : Player K :=
  (s.setDec d { s.dec d with packs := (s.dec d).packs ++ [x] }).emit (.push w d x)

/-- One step of `Notify` of `demux` by `w`; without a next place all observers have been called. -/
def update (w : Holder) : UpdatePc → Player K → Option (Player K × Option UpdatePc)
  | .enter d x, s =>
    some (s, if x.isAudio ≠ (s.dec d).isAudio then UpdatePc.next d x else some (.exitTest d x))
  | .exitTest d x, s =>
    some (s, if s.isExit (.dec d) then UpdatePc.next d x else some (.section d x))
  | .section d x, s =>
    if s.packsMutex d ≠ none then none
    else if (s.dec d).packs.length < (s.dec d).maxList then
      some (s.pushed w d x, UpdatePc.next d x)
    else some (s, some (.exitTest d x))

/-- `demux->Read()` by `w`. -/
def readBy (w : Holder) (s : Player K) : XData × Player K :=
  let r := s.demux.read s.fresh
  let s' := { s with demux := r.2, fresh := s.fresh + 1 }
  (r.1, if r.1.data = .null then s' else s'.emit (.read w r.1))

def demuxStep (n : ℕ) (s : Player K) : Option (Player K) :=
  match s.demuxW n with
  | .gone => none
  | .exitTest => some (s.setDemux n (if s.isExit .demux then .gone else .pauseTest))
  | .pauseTest => some (s.setDemux n (if s.isPause .demux then .exitTest else .read))
  | .read =>
    let r := s.readBy (.demux n)
    some (r.2.setDemux n (if 0 < r.1.size then .notify r.1 else .exitTest))
  | .notify x =>
    if s.demuxMux = none then
      some ({ s with demuxMux := some (.demux n) }.setDemux n (.update (.enter .video x)))
    else none
  | .update u =>
    match s.update (.demux n) u with
    | none => none
    | some (s', some u') => some (s'.setDemux n (.update u'))
    | some (s', none) => some ({ s' with demuxMux := none }.setDemux n .exitTest)

/-! ### `IDecode` -/

/-- `packs.pop_front()` by the worker `n`, which keeps `packsMutex`. -/
def popped (d : Dec) (n : ℕ) (x : XData) (rest : List XData) (s : Player K) : Player K :=
  ((s.setDec d { s.dec d with packs := rest }).setPacks d (some n)).emit (.pop d n x)

/-- The wait for the audio clock. -/
def gateClosed (d : FFDecode K) : Bool := !d.isAudio && decide (0 < d.synPts) && decide (d.synPts < d.pts)

/-- One step of the worker `n` of `d`. The section that ends in `pop_front` is one step; without a packet
to decode it releases `packsMutex` at once. -/
def decStep (L : FFmpeg K) (d : Dec) (n : ℕ) (s : Player K) : Option (Player K) :=
  match s.decW d n with
  | .gone => none
  | .exitTest => some (s.setDecW d n (if s.isExit (.dec d) then .gone else .pauseTest))
  | .pauseTest => some (s.setDecW d n (if s.isPause (.dec d) then .exitTest else .lock))
  | .lock =>
    if s.packsMutex d ≠ none then none
    else if gateClosed (s.dec d) then some (s.setDecW d n .exitTest)
    else
      match (s.dec d).packs with
      | [] => some (s.setDecW d n .exitTest)
      | x :: rest => some ((s.popped d n x rest).setDecW d n (.send x))
  | .send x =>
    let r := (s.dec d).sendPacket L x
    some (((s.setDec d r.2).emit (.send (.decoder d n) x)).setDecW d n
      (if r.1 = true then .innerExit x else .drop x))
  | .innerExit x => some (s.setDecW d n (if s.isExit (.dec d) then .drop x else .recv x))
  | .recv x =>
    let r := (s.dec d).recvFrame L
    some ((s.setDec d r.2).setDecW d n (if r.1.data = .null then .drop x else .notify x r.1))
  | .notify x f =>
    some ((s.emit (.notify d f)).setDecW d n (if d = .video then .innerExit x else .resample x f))
  | .resample x f =>
    if f.size ≤ 0 then some (s.setDecW d n (.innerExit x))
    else if s.resampleMux then none
    else
      match s.resample.resample L s.fresh f with
      | .refused => some (s.setDecW d n (.innerExit x))
      | .leaked => some ({ s with resampleMux := true }.setDecW d n (.innerExit x))
      | .pcm y => some (({ s with fresh := s.fresh + 1 }.emit (.resampled y)).setDecW d n (.pcmExit x y))
  | .pcmExit x y => some (s.setDecW d n (if s.isExit .audioPlay then .innerExit x else .pcmSection x y))
  | .pcmSection x y =>
    match s.audio.update y with
    | none => some (s.setDecW d n (.pcmExit x y))
    | some a => some (({ s with audio := a }.emit (.queued y)).setDecW d n (.innerExit x))
  | .drop x => some (((s.emit (.drop (.decoder d n) x)).setPacks d none).setDecW d n .exitTest)

/-! ### `IPlayer::Main` and the device -/

def syncStep (n : ℕ) (s : Player K) : Option (Player K) :=
  match s.syncW n with
  | .gone => none
  | .exitTest => some (s.setSync n (if s.isExit .player then .gone else .section))
  | .section =>
    if s.mux then none
    else some (((s.setDec .video { s.dec .video with synPts := s.audio.pts }).emit (.synced s.audio.pts)).setSync n
      .exitTest)

/-- What a step of `PlayCall` does to a buffer. -/
def callEvent (a : IAudioPlay) : CallPc → Option Event
  | .section => a.frames.head?.map .play
  | .drop x => some (.dropPcm x)
  | _ => none

def stepCall (s : Player K) : Option (Player K) :=
  s.call.map fun pc =>
    let r := callStep (s.isExit .audioPlay) (s.isPause .audioPlay) s.audio pc
    { s with audio := r.1, call := r.2, log := (callEvent s.audio pc).toList ++ s.log }

def deviceStep (s : Player K) : Option (Player K) :=
  if s.call = none then some { s with call := some .exitTest } else none

/-! ### The controller -/

/-- `IDecode::Clear`, which waits for `packsMutex`. -/
def clearDec (d : Dec) (s : Player K) : Option (Player K) :=
  if s.packsMutex d ≠ none then none
  else some { s.setDec d (s.dec d).clear with
    log := ((s.dec d).packs.map (.drop (.queue d))).reverse ++ s.log }

/-- `IAudioPlay::Clear`. -/
def clearFrames (s : Player K) : Player K :=
  { s with audio := s.audio.clear, log := (s.audio.frames.map .dropPcm).reverse ++ s.log }

def spawn (s : Player K) : Obj → Player K
  | .player => { s.setSync s.syncN .exitTest with syncN := s.syncN + 1 }
  | .demux => { s.setDemux s.demuxN .exitTest with demuxN := s.demuxN + 1 }
  | .dec d => { s.setDecW d (s.decN d) .exitTest with decN := Function.update s.decN d (s.decN d + 1) }
  | .audioPlay => s

def setFlags (s : Player K) (o : Obj) (f : Flags) : Player K :=
  { s with flags := Function.update s.flags o f }

/-- `av_seek_frame` is called: the position is in range and a file is open. -/
def seekable (s : Player K) (pos : ℚ) : Bool := decide (¬ (pos < 0 ∨ 1 < pos)) && s.demux.ic.isSome

/-- One step of `Seek`: the state and the next place. -/
def seekStep (L : FFmpeg K) (pos : ℚ) (f : SeekFrame) : SeekPc → Player K → Option (Player K × Option SeekPc)
  | .lock, s => if s.mux then none else some ({ s with mux := true }, some (.clear .video))
  | .clear d, s => (s.clearDec d).map fun s' => (s'.emit (.flushed d), some (.flush d))
  | .flush d, s =>
    -- `avcodec_flush_buffers` reads `internal` through a null pointer and the process crashes
    if (s.dec d).unopened then none
    else some (s.setDec d ((s.dec d).flush L), some (if d = .video then .clear .audio else .clearFrames))
  | .clearFrames, s => some (s.clearFrames, some .reposition)
  | .reposition, s =>
    let r := s.demux.seek pos f
    let s' := { s with demux := r.2, ret := r.1 }
    some (if s.seekable pos then s'.emit .reposition else s', some .target)
  | .target, s => some (s, some (.exitTest (trunc (pos * s.demux.total))))
  | .exitTest t, s => some (s, some (if s.isExit .player then .unlock else .read t))
  | .read t, s =>
    let r := s.readBy .ui
    some (r.2, some (if r.1.size ≤ 0 then .unlock
      else if r.1.isAudio then if r.1.pts < t then .skip t r.1 else .notify t r.1 else .send t r.1))
  | .skip t x, s => some (s.emit (.drop .ui x), some (.exitTest t))
  | .notify t x, s =>
    if s.demuxMux = none then some ({ s with demuxMux := some .ui }, some (.update t (.enter .video x)))
    else none
  | .update t u, s =>
    match s.update .ui u with
    | none => none
    | some (s', some u') => some (s', some (.update t u'))
    | some (s', none) => some ({ s' with demuxMux := none }, some (.exitTest t))
  | .send t x, s =>
    some ((s.setDec .video ((s.dec .video).sendPacket L x).2).emit (.send .ui x), some (.drop t x))
  | .drop t x, s => some (s.emit (.drop .ui x), some (.recv t))
  | .recv t, s =>
    let r := (s.dec .video).recvFrame L
    some (s.setDec .video r.2, some (if r.1.size ≤ 0 then .exitTest t
      else if t ≤ r.1.pts then .unlock else .exitTest t))
  | .unlock, s => some ({ s with mux := false }, none)

/-- One step of the controller, with `cs` to do afterwards. -/
def cmdStep (L : FFmpeg K) (cs : List Cmd) (s : Player K) : Cmd → Option (Player K)
  | .lock => if s.mux then none else some { s with mux := true, ui := cs }
  | .unlock => some { s with mux := false, ui := cs }
  | .exit o b => some { s.setFlags o { s.flags o with isExit := b } with ui := cs }
  | .pause o b => some { s.setFlags o { s.flags o with isPause := b } with ui := cs }
  | .spawn o => some { s.spawn o with ui := cs }
  | .clear d => (s.clearDec d).map fun s' => { s'.emit (.cleared d) with ui := cs }
  | .flush d => if (s.dec d).unopened then none else some { s.setDec d ((s.dec d).flush L) with ui := cs }
  | .free d => some { s.setDec d (s.dec d).free with ui := cs }
  | .clearFrames => some { s.clearFrames with ui := cs }
  | .closeDemux => some { s with demux := s.demux.close, ui := cs }
  | .openDemux o =>
    match s.demux.openInput o with
    | (true, d) => some { s with demux := d, ret := true, ui := cs }
    | (false, d) => some { s with demux := d, ret := false, ui := [.unlock, .ret .open] }
  | .videoPara => some { s with demux := s.demux.getVideoPara.2, ui := cs }
  | .audioPara => some { s with demux := s.demux.getAudioPara.2, ui := cs }
  | .openDec d o =>
    let para := if d = .video then s.demux.getVideoPara.1 else s.demux.getAudioPara.1
    some { s.setDec d ((s.dec d).open L para o) with ui := cs }
  | .openResample swr_init =>
    -- without an audio stream `in.para` is null and the process crashes
    match s.demux.getAudioPara.1.para with
    | none => none
    | some p => some { s with resample := s.resample.open p swr_init, ui := cs }
  | .seek pos f pc =>
    match s.seekStep L pos f pc with
    | none => none
    | some (s', some pc') => some { s' with ui := .seek pos f pc' :: cs }
    | some (s', none) => some { s' with ui := cs }
  | .ret k => some { s.emit (.returned k s.ret) with ui := cs }

def uiStep (L : FFmpeg K) (s : Player K) : Option (Player K) :=
  match s.ui with
  | [] => none
  | c :: cs => s.cmdStep L cs c

end Player

/-- The steps of `SetPause` of all parts. -/
def pauseCmds (isP : Bool) : List Cmd :=
  [.lock, .pause .player isP, .pause .demux isP, .pause (.dec .video) isP, .pause (.dec .audio) isP,
    .pause .audioPlay isP, .unlock]

def closeCmds : List Cmd :=
  [.lock, .exit .player true, .exit .demux true, .exit (.dec .video) true, .exit (.dec .audio) true,
    .exit .audioPlay true, .clear .video, .flush .video, .clear .audio, .flush .audio, .clearFrames,
    .clearFrames, .clear .video, .free .video, .clear .audio, .free .audio, .closeDemux, .unlock]

def openCmds (o : OpenInput) (v a : OpenCodec) (swr_init : Bool) : List Cmd :=
  [.lock, .closeDemux, .openDemux o, .videoPara, .audioPara, .clear .video, .free .video,
    .openDec .video v, .clear .audio, .free .audio, .openDec .audio a, .openResample swr_init, .unlock]

/-- `XThread::Start`. -/
def startThread (o : Obj) : List Cmd := [.exit o false, .pause o false, .spawn o]

def startCmds (sl : Bool) : List Cmd :=
  .lock :: startThread (.dec .video) ++ startThread .demux ++ startThread (.dec .audio) ++
    .clearFrames :: (if sl then [.exit .audioPlay false] else []) ++ startThread .player ++ [.unlock]

def seekEnd : List Cmd := pauseCmds false ++ [.ret .seek]

/-- What the controller does in a call. -/
def Call.program : Call → List Cmd
  | .open o v a swr_init => closeCmds ++ openCmds o v a swr_init ++ [.ret .open]
  | .close => closeCmds ++ [.ret .close]
  | .start sl => startCmds sl ++ [.ret .start]
  | .setPause isP => pauseCmds isP ++ [.ret .setPause]
  | .seek pos f => pauseCmds true ++ .seek pos f .lock :: seekEnd

namespace Player
variable {K : Type}

def step (L : FFmpeg K) : Act → Player K → Option (Player K)
  | .demux n, s => s.demuxStep n
  | .dec d n, s => s.decStep L d n
  | .sync n, s => s.syncStep n
  | .device, s => s.deviceStep
  | .call, s => s.stepCall
  | .ui, s => s.uiStep L
  | .request c, s => if s.ui = [] then some { s.emit (.called c.kind) with ui := c.program } else none

end Player

/-- A player from its construction. -/
def player {K : Type} (L : FFmpeg K) : Sys (Player K) Act where
  init s := ∃ total, s = { demux := { total := total } }
  step := Player.step L

/-! ### A file and a codec for runs on fixed inputs -/

/-- A codec that takes every packet and yields no frame. -/
def silent : FFmpeg Unit where
  codec := { send := fun k _ => (true, k), recv := fun k => (none, k), flush := id, eof := id,
             pending := fun _ => 0, recv_lt := by rintro _ _ _ ⟨⟩ }
  opened _ := ()
  swr_convert _ := 0

/-- A codec that yields a frame for each byte of a packet, so many milliseconds after the packet, and takes
no packet before all of them are received. -/
def bytewise : FFmpeg (List AVFrame) where
  codec := { send := fun k p =>
               if k = [] then
                 (true, p.payload.map fun b => { pts := p.pts + b.toNat, content := 0, height := 1,
                                                 linesize := (1, 0, 0), nb_samples := 1 })
               else (false, k)
             recv := fun k => (k.head?, k.tail)
             flush := fun _ => []
             eof := id
             pending := List.length
             recv_lt := by rintro (_ | _) _ _ ⟨⟩; simp }
  opened _ := []
  swr_convert f := f.nb_samples

/-- A file with a video and an audio stream, in milliseconds. -/
def avFile : Container where
  streams := [⟨⟨.video, 27, 0, 0, 0⟩, ⟨1, 1000⟩, 60000⟩, ⟨⟨.audio, 86018, 2, 44100, 8⟩, ⟨1, 1000⟩, 60000⟩]
  duration := 60000000
  best t := if t = .video then 0 else if t = .audio then 1 else -1
  best_lt t h := by cases t <;> simp at h ⊢
  best_type t h := by cases t <;> simp at h ⊢

/-- `Open` of `avFile` with the packets `ps`, and `Start`; `a` is the outcome for `aDecode`. -/
def openStart (ps : List AVPacket) (a : OpenCodec) : List Act :=
  .request (.open (.opened ⟨avFile, ps⟩) .opened a true) :: List.replicate 32 .ui ++
    .request (.start true) :: List.replicate 17 .ui

end XPlayer
