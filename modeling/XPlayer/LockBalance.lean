import XPlayer.Mutexes
import XPlayer.Resample
import XPlayer.Lib.LockBalance

/-!
# Every operation unlocks what it locks

The bodies of the functions that lock a mutex, with every `return`, `break` and `continue` (`Operation.body`): the
calls of `lock` and `unlock`, the functions of the player that are called, and the tests that decide between them.
Tests may come out either way, with the exception of those in `Resample`, which depend on its argument and on the
resampler.

`lock_balance`: all of them hold on return the mutexes that they held on entry, if and only if the output size in
`Resample` is positive. `bodies_ordered`: they request mutexes in the order that the skeletons of `XPlayer.Mutexes` have
been checked for (`obeys`).
-/

namespace XPlayer
open Balance

/-- The tests. -/
inductive Guard
  /-- Its value is known. -/
  | is (b : Bool)
  /-- `!isExit`, the condition of a loop. -/
  | running
  /-- There is another element. -/
  | more
  | isPause
  /-- A pointer or a handle is null. -/
  | null
  /-- The data or its size is 0, or not positive. -/
  | noData
  /-- A function of the player or of a library has failed. -/
  | failed
  /-- `if (vDecode)` and the like. -/
  | part
  | posOutside
  | stream
  | isAudio
  | early
  | reached
  | space
  | full
  | synPts
  | ahead
  | empty
  | format
  deriving DecidableEq

/-- What `Resample` is called with, and on which resampler. -/
structure ResampleInput where
  resample : FFResample
  indata : XData
  frame : AVFrame

/-- `Resample` gets to its `outsize` with a converter and data, and the size is not positive. -/
def ResampleInput.Leaks (i : ResampleInput) : Prop :=
  ¬ (i.indata.size ≤ 0 ∨ i.indata.data = .null) ∧ i.resample.actx = true ∧ i.resample.outsize i.frame ≤ 0

/-- The functions, where `ι` are the calls of `Resample`. -/
inductive Operation (ι : Type)
  | addObserver (o : Subject)
  | notify (o : Subject)
  | demuxClose
  | demuxSeek
  | demuxOpen
  | getVideoPara
  | getAudioPara
  | demuxRead
  | decodeUpdate (d : Dec)
  /-- `IDecode::Clear`. -/
  | packsClear (d : Dec)
  | decodeMain (d : Dec)
  | initHard
  | decodeClear (d : Dec)
  | decodeClose (d : Dec)
  | decodeOpen (d : Dec)
  | sendPacket (d : Dec)
  | recvFrame (d : Dec)
  | resampleClose
  | resampleOpen
  | resample (i : ι)
  | resampleUpdate
  | framesClear
  | getData
  | audioUpdate
  | playCall
  | audioClose
  | startPlay
  | setRender
  | viewClose
  | render
  | eglDraw
  | eglClose
  | eglInit
  | shaderClose (n : ℕ)
  | shaderInit (n : ℕ)
  | shaderDraw (n : ℕ)
  | getTexture (n : ℕ)
  | textureDrop (n : ℕ)
  | textureInit (n : ℕ)
  | textureDraw (n : ℕ)
  | playerMain
  | playerClose
  | playPos
  | setPause
  | seek
  | playerOpen
  | start
  | initView

namespace Operation
variable {ι : Type}

/-- `mux.unlock(); return`. -/
def leave (m : Mutex) : Stmt Mutex Guard (Operation ι) := .seq (.unlock m) .ret

def call (o : Operation ι) : Stmt Mutex Guard (Operation ι) := .call {o}

/-- The `Update`s of the observers. -/
def observers : Subject → Set (Operation ι)
  | .demux => Set.range decodeUpdate
  | .dec .video => {render}
  | .dec .audio => {resampleUpdate}
  | .resample => {audioUpdate}

open Stmt in
/-- The body of a function. -/
def body (inp : ι → ResampleInput) : Operation ι → Stmt Mutex Guard (Operation ι)
  | addObserver o => block [when .null .ret, .lock (.observer o), .unlock (.observer o)]
  | notify o => block [.lock (.observer o), .loop .more (.call (observers o)), .unlock (.observer o)]
  -- `FFDemux`
  | demuxClose => block [.lock .demux, .unlock .demux]
  | demuxSeek => block [when .posOutside .ret, .lock .demux, when .null (leave .demux), .unlock .demux, .ret]
  | demuxOpen => block [call demuxClose, .lock .demux, when .failed (leave .demux), when .failed (leave .demux),
      .unlock .demux, call getVideoPara, call getAudioPara, .ret]
  | getVideoPara | getAudioPara => block [.lock .demux, when .null (leave .demux), when .failed (leave .demux),
      .unlock .demux, .ret]
  | demuxRead => block [.lock .demux, when .null (leave .demux), when .failed (leave .demux),
      .ite .stream .skip (.ite .stream .skip (leave .demux)), .unlock .demux, .ret]
  -- `IDecode`
  | decodeUpdate d => block [when .isAudio .ret, .loop .running (block [.lock (.packs d),
      when .space (block [.unlock (.packs d), .brk]), .unlock (.packs d)])]
  | packsClear d => block [.lock (.packs d), .loop .more .skip, .unlock (.packs d)]
  | decodeMain d => .loop .running (block [when .isPause .cont, .lock (.packs d),
      when .synPts (when .ahead (block [.unlock (.packs d), .cont])),
      when .empty (block [.unlock (.packs d), .cont]), call (sendPacket d),
      .ite .failed .skip (.loop .running (block [call (recvFrame d), when .noData .brk, call (notify (.dec d))])),
      .unlock (.packs d)])
  -- `FFDecode`
  | initHard => .skip
  | decodeClear d | decodeClose d => block [call (packsClear d), .lock (.codec d), .unlock (.codec d)]
  | decodeOpen d => block [call (decodeClose d), when .null .ret, when .null .ret, .lock (.codec d),
      when .failed (leave (.codec d)), .unlock (.codec d), .ret]
  | sendPacket d => block [when .noData .ret, .lock (.codec d), when .null (leave (.codec d)), .unlock (.codec d),
      when .failed .ret, .ret]
  | recvFrame d => block [.lock (.codec d), when .null (leave (.codec d)), when .failed (leave (.codec d)),
      .unlock (.codec d), .ret]
  -- `FFResample`
  | resampleClose => block [.lock .resample, .unlock .resample]
  | resampleOpen => block [when .failed .ret, .ret]
  | resample i => block [when (.is (decide ((inp i).indata.size ≤ 0 ∨ (inp i).indata.data = .null))) .ret,
      .lock .resample, when (.is (!(inp i).resample.actx)) (leave .resample),
      when (.is (decide ((inp i).resample.outsize (inp i).frame ≤ 0))) .ret,
      when .noData (leave .resample), .unlock .resample, .ret]
  | resampleUpdate => block [.call (Set.range resample), .ite .noData .skip (call (notify .resample))]
  -- `IAudioPlay` and `SLAudioPlay`
  | framesClear => block [.lock .frames, .loop .more .skip, .unlock .frames]
  | getData => block [.loop .running (block [when .isPause .cont, .lock .frames, when .more (leave .frames),
      .unlock .frames]), .ret]
  | audioUpdate => block [when .noData .ret, .loop .running (block [.lock .frames,
      when .full (block [.unlock .frames, .cont]), .unlock .frames, .brk])]
  | playCall => block [when .null .ret, call getData, when .noData .ret, when .null .ret, .lock .audioOut,
      .unlock .audioOut]
  | audioClose => block [call framesClear, .lock .audioOut, .unlock .audioOut]
  | startPlay => block [call audioClose, .lock .audioOut, when .null (leave .audioOut), when .failed (leave .audioOut),
      when .failed (leave .audioOut), when .failed (leave .audioOut), when .failed (leave .audioOut),
      when .failed (leave .audioOut), .unlock .audioOut, .ret]
  -- `GLVideoView`
  | setRender => .skip
  | viewClose => block [.lock .view, when .part (.call (Set.range textureDrop)), .unlock .view]
  | render => block [when .null .ret, when .null (.call (Set.range textureInit)), .call (Set.range textureDraw)]
  -- `CXEGL`
  | eglDraw => block [.lock .egl, when .null (leave .egl), .unlock .egl]
  | eglClose => block [.lock .egl, when .null (leave .egl), .unlock .egl]
  | eglInit => block [call eglClose, .lock .egl, when .null (leave .egl), when .failed (leave .egl),
      when .failed (leave .egl), when .null (leave .egl), when .failed (leave .egl), .unlock .egl, .ret]
  -- `XShader`
  | shaderClose n => block [.lock (.shader n), .loop .more .skip, .unlock (.shader n)]
  | shaderInit n => block [call (shaderClose n), .lock (.shader n), when .failed (leave (.shader n)),
      when .format (leave (.shader n)), when .failed (leave (.shader n)), when .failed (leave (.shader n)),
      when .failed (leave (.shader n)), .unlock (.shader n), .ret]
  | shaderDraw n => block [.lock (.shader n), when .null (leave (.shader n)), .unlock (.shader n)]
  | getTexture n => block [.lock (.shader n), .unlock (.shader n)]
  -- `CXTexture`
  | textureDrop n => block [.lock (.texture n), call eglClose, call (shaderClose n), .unlock (.texture n)]
  | textureInit n => block [.lock (.texture n), call eglClose, call (shaderClose n), when .null (leave (.texture n)),
      call eglInit, when .failed (leave (.texture n)), call (shaderInit n), .unlock (.texture n), .ret]
  | textureDraw n => block [.lock (.texture n), call (getTexture n),
      .ite .format (block [call (getTexture n), call (getTexture n)]) (call (getTexture n)), call (shaderDraw n),
      call eglDraw, .unlock (.texture n)]
  -- `IPlayer`
  | playerMain => .loop .running (block [.lock .player, when .null (block [.unlock .player, .cont]), .unlock .player])
  | playerClose => block [.lock .player, when .part (call (decodeClear .video)), when .part (call (decodeClear .audio)),
      when .part (call framesClear), when .part (call audioClose), when .part (call viewClose),
      when .part (call (decodeClose .video)), when .part (call (decodeClose .audio)), when .part (call demuxClose),
      .unlock .player]
  | playPos => block [.lock .player, .unlock .player, .ret]
  | setPause => block [.lock .player, .unlock .player]
  | seek => block [when .null .ret, call setPause, .lock .player, when .part (call (decodeClear .video)),
      when .part (call (decodeClear .audio)), when .part (call framesClear), call demuxSeek,
      when .null (block [.unlock .player, call setPause, .ret]),
      .loop .running (block [call demuxRead, when .noData .brk,
        when .isAudio (block [when .early .cont, call (notify .demux), .cont]),
        call (sendPacket .video), call (recvFrame .video), when .noData .cont, when .reached .brk]),
      .unlock .player, call setPause, .ret]
  | playerOpen => block [call playerClose, .lock .player, when .null (leave .player), call demuxOpen,
      when .failed (leave .player), when .part (block [call getVideoPara, call (decodeOpen .video)]),
      when .part (block [call getAudioPara, call (decodeOpen .audio)]), call getAudioPara,
      when .part (block [call getAudioPara, call resampleOpen]), .unlock .player, .ret]
  | start => block [.lock .player, when .failed (leave .player), when .part (call startPlay), .unlock .player, .ret]
  | initView => when .part (block [call viewClose, call setRender])

/-- The outcome of a test whose value is known. -/
def Known (may : Guard → Bool → Prop) : Prop := ∀ b b', may (.is b) b' ↔ b' = b

variable {may : Guard → Bool → Prop} {inp : ι → ResampleInput}

theorem checked_resample (hk : Known may) {i : ι} (hi : ¬ (inp i).Leaks) : Checked may (body inp) (resample i) := by
  have hk : ∀ b b', may (.is b) b' ↔ b' = b := hk
  have hpos : 0 < (inp i).indata.size → (inp i).indata.data ≠ .null → (inp i).resample.actx = true →
      0 < (inp i).resample.outsize (inp i).frame := by
    intro h1 h2 h3
    refine not_le.mp fun h4 => hi ⟨?_, h3, h4⟩
    rintro (h5 | h5)
    · omega
    · exact h2 h5
  simpa [Checked, body, Stmt.block, Stmt.when, leave, Stmt.wp, hk] using hpos

theorem checked (hk : Known may) (hi : ∀ i, ¬ (inp i).Leaks) (o : Operation ι) : Checked may (body inp) o := by
  cases o with
  | resample i => exact checked_resample hk (hi i)
  | _ => simp [Checked, body, Stmt.wp, Stmt.block, Stmt.when, leave, call]

/-- The way of `Resample` through `if (outsize <= 0)`. -/
theorem exec_leak (hk : Known may) {i : ι} (hi : (inp i).Leaks) :
    Exec may (body inp) (body inp (resample i)) ∅ .ret (insert .resample ∅) := by
  obtain ⟨h1, h2, h3⟩ := hi
  have hskip : ∀ {b : Bool} {p : Stmt Mutex Guard (Operation ι)} {H : Set Mutex}, b = false →
      Exec may (body inp) (Stmt.when (.is b) p) H .norm H := by
    rintro _ p H rfl
    exact .ite (b := false) ((hk _ _).mpr rfl) .skip
  refine .seq (hskip (decide_eq_false h1)) (.seq (.lock (Set.notMem_empty _)) (.seq (hskip ?_) (.leave ?_ ?_)))
  · rw [h2]
    rfl
  · exact .ite (b := true) ((hk _ _).mpr (decide_eq_true h3).symm) .ret
  · decide

theorem leaks_unbalanced (hk : Known may) {i : ι} (hi : (inp i).Leaks) : ¬ Balanced may (body inp) (resample i) :=
  fun h => (Set.insert_nonempty _ _).ne_empty (h ∅ _ _ (exec_leak hk hi))

end Operation

open Operation in
/-- Whatever the outcomes of the tests, every function holds on return the mutexes that it held on entry, if and only
if no call of `Resample` computes an output size that is not positive. -/
theorem lock_balance {ι : Type} (inp : ι → ResampleInput) {may : Guard → Bool → Prop} (hk : Known may) :
    (∀ o, Balanced may (body inp) o) ↔ ∀ i, ¬ (inp i).Leaks := by
  constructor
  · exact fun h i hi => leaks_unbalanced hk hi (h _)
  · exact fun hi o => Exec.balanced (checked hk hi) o

/-- A call of `Resample` for a frame of so many samples. -/
def pcmInput (channels nb_samples : ℤ) : ResampleInput where
  resample := FFResample.open {} (pcmPara channels) true
  indata := frameData .audio { pcmFrame with nb_samples }
  frame := { pcmFrame with nb_samples }

/-- All tests may come out either way. -/
def anyOutcome (g : Guard) (b : Bool) : Prop := ∀ v, g = .is v → b = v

theorem known_anyOutcome : Operation.Known anyOutcome := by
  intro b b'
  unfold anyOutcome
  simp

/-- `Resample` of frames of 1024 samples in stereo is balanced. -/
theorem lock_balance_1024 : Balanced anyOutcome (Operation.body fun _ : Unit => pcmInput 2 1024) (.resample ()) := by
  refine (lock_balance _ known_anyOutcome).mpr ?_ _
  rintro - ⟨-, -, h⟩
  exact absurd h (by decide)

/-- For 200000000 samples of 6 channels the size wraps to a negative `int`, and `Resample` returns with its mutex
locked. -/
theorem lock_unbalanced : ¬ ∀ (inp : Unit → ResampleInput) (o : Operation Unit),
    Balanced anyOutcome (Operation.body inp) o := by
  intro h
  have hi : (pcmInput 6 200000000).Leaks := ⟨by decide, rfl, by decide⟩
  exact @Operation.leaks_unbalanced _ _ (fun _ => pcmInput 6 200000000) known_anyOutcome () hi (h _ _)

/-! ### The order of the mutexes in the bodies -/

namespace Operation
variable {ι : Type} {may : Guard → Bool → Prop} {inp : ι → ResampleInput}
open Locks Skeleton

/-- The `Update`s of the observers, as `threadMain` has them. -/
def updates : Subject → Code Mutex
  | .demux => calls [IDecode.Update .video, IDecode.Update .audio]
  | .dec .video => GLVideoView.Render
  | .dec .audio => IResample.Update true
  | .resample => IAudioPlay.Update

/-- The locking skeleton of a function. -/
def skeleton : Operation ι → Code Mutex
  | addObserver o => IObserver.AddObserver o
  | notify o => IObserver.Notify o (updates o)
  | demuxClose => FFDemux.Close
  | demuxSeek => FFDemux.Seek
  | demuxOpen => FFDemux.Open
  | getVideoPara | getAudioPara => FFDemux.GetPara
  | demuxRead => FFDemux.Read
  | decodeUpdate d => IDecode.Update d
  | packsClear d => IDecode.Clear d
  | decodeMain d => IDecode.Main d (updates (.dec d))
  | decodeClear d => FFDecode.Clear d
  | decodeClose d => FFDecode.Close d
  | decodeOpen d => FFDecode.Open d
  | sendPacket d => FFDecode.SendPacket d
  | recvFrame d => FFDecode.RecvFrame d
  | resampleClose => locked .resample
  | resample _ => FFResample.Resample true
  | resampleUpdate => IResample.Update true
  | framesClear => IAudioPlay.Clear
  | getData => IAudioPlay.GetData
  | audioUpdate => IAudioPlay.Update
  | playCall => SLAudioPlay.PlayCall
  | audioClose => SLAudioPlay.Close
  | startPlay => SLAudioPlay.StartPlay
  | viewClose => GLVideoView.Close
  | render => GLVideoView.Render
  | eglDraw => XEGL.Draw
  | eglClose => XEGL.Close
  | eglInit => XEGL.Init
  | shaderClose n => XShader.Close n
  | shaderInit n => XShader.Init n
  | shaderDraw n => XShader.Draw n
  | getTexture n => XShader.GetTexture n
  | textureDrop n => CXTexture.Drop n
  | textureInit n => CXTexture.Init n
  | textureDraw n => CXTexture.Draw n
  | playerMain => IPlayer.Main
  | playerClose => IPlayer.Close
  | playPos => IPlayer.PlayPos
  | setPause => IPlayer.SetPause
  | seek => IPlayer.Seek
  | playerOpen => IPlayer.Open
  | start => IPlayer.Start
  | initView => IPlayer.InitView
  | initHard | setRender | resampleOpen => .skip

attribute [local simp] skeleton body Stmt.Obeys Stmt.after Stmt.wp Stmt.block Stmt.when leave call Code.Ordered ordered_calls
  ordered_locked

/-- The body of a function requests mutexes in the order that its skeleton has been checked for. -/
theorem obeys (lt : Mutex → Mutex → Prop) (o : Operation ι) (held : List Mutex) (h : (skeleton o).Ordered lt held) :
    (body inp o).Obeys may lt (fun o held => (skeleton o).Ordered lt held) held [] := by
  cases o with
  | notify o =>
    cases o with
    | demux =>
      simp only [skeleton, IObserver.Notify, updates, Code.Ordered, ordered_calls, List.forall_mem_cons] at h
      obtain ⟨hm, hv, ha, -⟩ := h
      have hu : ∀ d, (IDecode.Update d).Ordered lt (.observer .demux :: held) := Dec.rec hv ha
      simp_all [observers]
    | dec d => cases d <;> simp_all [IObserver.Notify, updates, observers]
    | resample => simp_all [IObserver.Notify, updates, observers]
  | addObserver => simp_all [IObserver.AddObserver]
  | demuxClose => simp_all [FFDemux.Close]
  | demuxSeek => simp_all [FFDemux.Seek]
  | demuxOpen => simp_all [FFDemux.Open]
  | getVideoPara => simp_all [FFDemux.GetPara]
  | getAudioPara => simp_all [FFDemux.GetPara]
  | demuxRead => simp_all [FFDemux.Read]
  | decodeUpdate => simp_all [IDecode.Update]
  | packsClear => simp_all [IDecode.Clear]
  | decodeMain => simp_all [IDecode.Main]
  | decodeClear => simp_all [FFDecode.Clear]
  | decodeClose => simp_all [FFDecode.Close]
  | decodeOpen => simp_all [FFDecode.Open]
  | sendPacket => simp_all [FFDecode.SendPacket]
  | recvFrame => simp_all [FFDecode.RecvFrame]
  | resample => simp_all [FFResample.Resample]
  | resampleUpdate => simp_all [IResample.Update, updates]
  | framesClear => simp_all [IAudioPlay.Clear]
  | getData => simp_all [IAudioPlay.GetData]
  | audioUpdate => simp_all [IAudioPlay.Update]
  | playCall => simp_all [SLAudioPlay.PlayCall]
  | audioClose => simp_all [SLAudioPlay.Close]
  | startPlay => simp_all [SLAudioPlay.StartPlay]
  | viewClose => simp_all [GLVideoView.Close]
  | render => simp_all [GLVideoView.Render]
  | eglDraw => simp_all [XEGL.Draw]
  | eglClose => simp_all [XEGL.Close]
  | eglInit => simp_all [XEGL.Init]
  | shaderClose => simp_all [XShader.Close]
  | shaderInit => simp_all [XShader.Init]
  | shaderDraw => simp_all [XShader.Draw]
  | getTexture => simp_all [XShader.GetTexture]
  | textureDrop => simp_all [CXTexture.Drop]
  | textureInit => simp_all [CXTexture.Init]
  | textureDraw => simp_all [CXTexture.Draw]
  | playerMain => simp_all [IPlayer.Main]
  | playerClose => simp_all [IPlayer.Close]
  | playPos => simp_all [IPlayer.PlayPos]
  | setPause => simp_all [IPlayer.SetPause]
  | seek => simp_all [IPlayer.Seek, updates]
  | playerOpen => simp_all [IPlayer.Open]
  | start => simp_all [IPlayer.Start]
  | initView => simp_all [IPlayer.InitView]
  | initHard | setRender | resampleOpen | resampleClose => simp_all

/-- The functions that the proxy calls under its mutex, and those that the threads run. -/
def entries : List (Operation ι × List Mutex) :=
  [(initView, [.proxy]), (playerOpen, [.proxy]), (start, [.proxy]), (seek, [.proxy]), (setPause, [.proxy]),
    (playerClose, [.proxy]), (playPos, [.proxy]), (demuxRead, []), (notify .demux, []), (decodeMain .video, []),
    (decodeMain .audio, []), (playerMain, []), (playCall, [])]

theorem ordered_entries {e : Operation ι × List Mutex} (he : e ∈ entries) : (skeleton e.1).Ordered Mutex.lt e.2 := by
  have hv := ordered_viewClose [.proxy] (by simp [Mutex.rank])
  have hthread := ordered_threadMain
  have hd := hthread (.demux 0)
  simp only [threadMain, IDemux.Main, Code.Ordered, Code.ordered_opt, ordered_calls, List.forall_mem_cons] at hd
  obtain ⟨hread, hnotify, -⟩ := hd
  revert e
  simp only [entries, List.forall_mem_cons, skeleton]
  refine ⟨hv, ordered_open, ordered_start, ordered_seek, ?_, ordered_close, ?_, hread, hnotify, hthread (.dec .video 0),
    hthread (.dec .audio 0), hthread (.sync 0), hthread (.callback 0), fun _ he => absurd he List.not_mem_nil⟩
  · simp [IPlayer.SetPause, ordered_locked, lt_iff, Mutex.rank]
  · simp [IPlayer.PlayPos, ordered_locked, lt_iff, Mutex.rank]

end Operation

open Operation in
/-- In the bodies too, a thread requests a mutex only above all that it holds, if no call of `Resample` computes an
output size that is not positive. -/
theorem bodies_ordered {ι : Type} (inp : ι → ResampleInput) {may : Guard → Bool → Prop} (hk : Known may)
    (hi : ∀ i, ¬ (inp i).Leaks) {o : Operation ι} {held : List Mutex} (ho : (o, held) ∈ entries) {m : Mutex}
    {K : Set Mutex} (h : Asks may (body inp) (body inp o) {a | a ∈ held} m K) : ∀ a ∈ K, a.lt m :=
  h.above (checked hk hi) (fun o held => obeys Mutex.lt o held) (checked hk hi o)
    (obeys Mutex.lt o held (ordered_entries ho)) (.nil _)

/-- `PlayPos` requests the player's mutex while the proxy's is held. -/
theorem bodies_ordered_playPos : Mutex.proxy.lt .player :=
  bodies_ordered (fun _ : Unit => pcmInput 2 1024) known_anyOutcome (fun _ h => absurd h.2.2 (by decide))
    (o := .playPos) (by simp [Operation.entries]) (.first .lock) .proxy (List.mem_singleton_self _)

end XPlayer
