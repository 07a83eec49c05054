import XPlayer.Player
import XPlayer.Lib.LockOrder

/-!
# The mutexes of the player

The locking skeleton of every function that locks a mutex, under the source's names, and of the threads
that run them: what is kept of a function are its critical sections, the calls inside them, and that
branches and loops may go either way. A derived class that declares its own `mux` has two mutexes, the
one of `IObserver` and its own.

`mutex_ordered` gives the order of the mutexes; `Mutex.rank` is it. It assumes that `Resample` computes a
positive output size (`positive`), because it returns without unlocking otherwise.
-/

namespace XPlayer
open Locks

/-- The objects whose `IObserver::mux` is locked. -/
inductive Subject
  | demux
  | dec (d : Dec)
  | resample
  deriving DecidableEq

inductive Mutex
  /-- `IPlayerPorxy::mux`. -/
  | proxy
  /-- `IPlayer::mux`. -/
  | player
  | observer (o : Subject)
  | packs (d : Dec)
  /-- `FFDecode::mux`. -/
  | codec (d : Dec)
  /-- `FFDemux::mux`. -/
  | demux
  /-- `FFResample::mux`. -/
  | resample
  | frames
  /-- `SLAudioPlay::mux`. -/
  | audioOut
  /-- `GLVideoView::mux`. -/
  | view
  /-- `CXTexture::mux` and the mutex of its `XShader`, for each texture that is created. -/
  | texture (n : ℕ)
  | shader (n : ℕ)
  | egl
  deriving DecidableEq

/-- The place of a mutex in the order. -/
def Mutex.rank : Mutex → ℕ
  | .proxy => 0
  | .player => 1
  | .observer .demux => 2
  | .packs _ => 3
  | .observer (.dec _) => 4
  | .observer .resample => 5
  | .view => 5
  | .texture _ => 6
  | _ => 7

/-- Functions called one after the other. -/
def calls (cs : List (Code Mutex)) : Code Mutex := cs.foldr .seq .skip

/-- `m.lock(); m.unlock()` with nothing locked in between. -/
def locked (m : Mutex) : Code Mutex := .sec m .skip

namespace Skeleton

/-! ### `IObserver` -/

def IObserver.AddObserver (o : Subject) : Code Mutex := locked (.observer o)

/-- `Notify`, with the `Update`s of the observers. -/
def IObserver.Notify (o : Subject) (update : Code Mutex) : Code Mutex := .sec (.observer o) update

/-! ### `FFDemux`, `FFDecode`, `FFResample` -/

def FFDemux.Close : Code Mutex := locked .demux
def FFDemux.Seek : Code Mutex := .opt (locked .demux)
def FFDemux.GetPara : Code Mutex := locked .demux
def FFDemux.Open : Code Mutex :=
  calls [FFDemux.Close, locked .demux, .opt (calls [FFDemux.GetPara, FFDemux.GetPara])]
def FFDemux.Read : Code Mutex := locked .demux

def IDecode.Clear (d : Dec) : Code Mutex := locked (.packs d)

/-- `Update`: one section for each turn of the wait for space. -/
def IDecode.Update (d : Dec) : Code Mutex := .loop (locked (.packs d))

def FFDecode.Clear (d : Dec) : Code Mutex := calls [IDecode.Clear d, locked (.codec d)]
def FFDecode.Close (d : Dec) : Code Mutex := calls [IDecode.Clear d, locked (.codec d)]
def FFDecode.Open (d : Dec) : Code Mutex := calls [FFDecode.Close d, .opt (locked (.codec d))]
def FFDecode.SendPacket (d : Dec) : Code Mutex := .opt (locked (.codec d))
def FFDecode.RecvFrame (d : Dec) : Code Mutex := locked (.codec d)

/-- `Main`, with the `Update` of the decoder's observer. -/
def IDecode.Main (d : Dec) (update : Code Mutex) : Code Mutex :=
  .loop (.opt (.sec (.packs d) (.opt (calls [FFDecode.SendPacket d,
    .loop (calls [FFDecode.RecvFrame d, .opt (IObserver.Notify (.dec d) update)])]))))

/-- `Resample` returns with `mux` locked where the output size is not positive. -/
def FFResample.Resample (positive : Bool) : Code Mutex :=
  .opt (if positive then locked .resample else .alt (locked .resample) (.leak .resample))

/-! ### `IAudioPlay` and `SLAudioPlay` -/

def IAudioPlay.Clear : Code Mutex := locked .frames
def IAudioPlay.GetData : Code Mutex := .loop (locked .frames)
def IAudioPlay.Update : Code Mutex := .loop (locked .frames)

def SLAudioPlay.PlayCall : Code Mutex := calls [IAudioPlay.GetData, .opt (locked .audioOut)]
def SLAudioPlay.Close : Code Mutex := calls [IAudioPlay.Clear, locked .audioOut]
def SLAudioPlay.StartPlay : Code Mutex := calls [SLAudioPlay.Close, locked .audioOut]

def IResample.Update (positive : Bool) : Code Mutex :=
  calls [FFResample.Resample positive, .opt (IObserver.Notify .resample IAudioPlay.Update)]

/-! ### The view -/

def XEGL.Draw : Code Mutex := locked .egl
def XEGL.Close : Code Mutex := locked .egl
def XEGL.Init : Code Mutex := calls [XEGL.Close, locked .egl]

def XShader.Close (n : ℕ) : Code Mutex := locked (.shader n)
def XShader.Init (n : ℕ) : Code Mutex := calls [XShader.Close n, locked (.shader n)]
def XShader.Draw (n : ℕ) : Code Mutex := locked (.shader n)
def XShader.GetTexture (n : ℕ) : Code Mutex := locked (.shader n)

def CXTexture.Drop (n : ℕ) : Code Mutex := .sec (.texture n) (calls [XEGL.Close, XShader.Close n])
def CXTexture.Init (n : ℕ) : Code Mutex :=
  .sec (.texture n) (calls [XEGL.Close, XShader.Close n, .opt (calls [XEGL.Init, .opt (XShader.Init n)])])
def CXTexture.Draw (n : ℕ) : Code Mutex :=
  .sec (.texture n) (calls [XShader.GetTexture n, XShader.GetTexture n, .opt (XShader.GetTexture n),
    XShader.Draw n, XEGL.Draw])

/-- `txt` may be any texture, or null. -/
def GLVideoView.Close : Code Mutex := .sec .view (.choose fun n => .opt (CXTexture.Drop n))
def GLVideoView.Render : Code Mutex :=
  .choose fun n => .opt (calls [.opt (CXTexture.Init n), CXTexture.Draw n])

/-! ### `IPlayer` and `IPlayerPorxy` -/

def IDemux.Main : Code Mutex :=
  .loop (.opt (calls [FFDemux.Read,
    .opt (IObserver.Notify .demux (calls [IDecode.Update .video, IDecode.Update .audio]))]))

def IPlayer.Main : Code Mutex := .loop (locked .player)

def IPlayer.Close : Code Mutex :=
  .sec .player (calls [FFDecode.Clear .video, FFDecode.Clear .audio, IAudioPlay.Clear, SLAudioPlay.Close,
    GLVideoView.Close, FFDecode.Close .video, FFDecode.Close .audio, FFDemux.Close])

def IPlayer.PlayPos : Code Mutex := locked .player
def IPlayer.SetPause : Code Mutex := locked .player

def IPlayer.Seek : Code Mutex :=
  calls [IPlayer.SetPause,
    .sec .player (calls [FFDecode.Clear .video, FFDecode.Clear .audio, IAudioPlay.Clear, FFDemux.Seek,
      .loop (calls [FFDemux.Read,
        .alt (.opt (IObserver.Notify .demux (calls [IDecode.Update .video, IDecode.Update .audio])))
          (calls [FFDecode.SendPacket .video, FFDecode.RecvFrame .video])])]),
    IPlayer.SetPause]

def IPlayer.Open : Code Mutex :=
  calls [IPlayer.Close,
    .sec .player (calls [FFDemux.Open, .opt (calls [FFDemux.GetPara, FFDecode.Open .video, FFDemux.GetPara,
      FFDecode.Open .audio, FFDemux.GetPara, FFDemux.GetPara])])]

def IPlayer.Start : Code Mutex := .sec .player (.opt SLAudioPlay.StartPlay)
def IPlayer.InitView : Code Mutex := GLVideoView.Close

def IPlayerPorxy.Init : Code Mutex :=
  .sec .proxy (.opt (calls [IObserver.AddObserver .demux, IObserver.AddObserver .demux,
    IObserver.AddObserver (.dec .video), IObserver.AddObserver (.dec .audio), IObserver.AddObserver .resample]))

/-- The other functions of the proxy lock its mutex around the player's. -/
def IPlayerPorxy.Call (player : Code Mutex) : Code Mutex := .sec .proxy (.opt player)

end Skeleton

/-! ### The threads -/

inductive ThreadId
  | ui
  | progress
  | demux (n : ℕ)
  | dec (d : Dec) (n : ℕ)
  | sync (n : ℕ)
  | callback (n : ℕ)
  deriving DecidableEq

open Skeleton

/-- The functions that Java calls. -/
def jni : List (Code Mutex) :=
  [IPlayerPorxy.Init, IPlayerPorxy.Call IPlayer.InitView, IPlayerPorxy.Call IPlayer.Open,
    IPlayerPorxy.Call IPlayer.Start, IPlayerPorxy.Call IPlayer.Seek, IPlayerPorxy.Call .skip,
    IPlayerPorxy.Call IPlayer.SetPause, IPlayerPorxy.Call IPlayer.Close, IPlayerPorxy.Call IPlayer.PlayPos]

/-- What each thread runs. -/
def threadMain (positive : Bool) : ThreadId → Code Mutex
  | .ui => .loop (.choose fun n => jni[n]?.getD .skip)
  | .progress => .loop (IPlayerPorxy.Call IPlayer.PlayPos)
  | .demux _ => IDemux.Main
  | .dec .video _ => IDecode.Main .video GLVideoView.Render
  | .dec .audio _ => IDecode.Main .audio (IResample.Update positive)
  | .sync _ => IPlayer.Main
  | .callback _ => .loop SLAudioPlay.PlayCall

/-! ### The order -/

theorem ordered_calls {lt : Mutex → Mutex → Prop} {held : List Mutex} {cs : List (Code Mutex)} :
    (calls cs).Ordered lt held ↔ ∀ c ∈ cs, c.Ordered lt held := by
  induction cs with
  | nil => simp [calls, Code.Ordered]
  | cons c cs ih => simp [calls, Code.Ordered, ← ih]

theorem ordered_locked {lt : Mutex → Mutex → Prop} {held : List Mutex} {m : Mutex} :
    (locked m).Ordered lt held ↔ ∀ h ∈ held, lt h m := by
  simp [locked, Code.Ordered]

/-- The order of the mutexes. -/
def Mutex.lt (a b : Mutex) : Prop := a.rank < b.rank

instance : IsStrictOrder Mutex Mutex.lt where
  irrefl _ := Nat.lt_irrefl _
  trans _ _ _ := Nat.lt_trans

@[simp] theorem Mutex.rank_packs (d : Dec) : (Mutex.packs d).rank = 3 := rfl
@[simp] theorem Mutex.rank_codec (d : Dec) : (Mutex.codec d).rank = 7 := rfl
@[simp] theorem Mutex.rank_view : Mutex.view.rank = 5 := rfl
@[simp] theorem Mutex.rank_texture (n : ℕ) : (Mutex.texture n).rank = 6 := rfl
@[simp] theorem Mutex.rank_shader (n : ℕ) : (Mutex.shader n).rank = 7 := rfl
@[simp] theorem Mutex.rank_egl : Mutex.egl.rank = 7 := rfl

theorem lt_iff {a b : Mutex} : a.lt b ↔ a.rank < b.rank := Iff.rfl

/-- The sections of the view are ordered below the mutex of the decoder's `Notify`. -/
theorem ordered_render (held : List Mutex) (h : ∀ m ∈ held, m.rank < 6) :
    GLVideoView.Render.Ordered Mutex.lt held := by
  intro n
  have h7 : ∀ m ∈ held, m.rank < 7 := fun m hm => (h m hm).trans (by decide)
  simp only [Code.ordered_opt, CXTexture.Init, CXTexture.Draw, Code.Ordered, XEGL.Close, XEGL.Init, XEGL.Draw,
    XShader.Close, XShader.Init, XShader.GetTexture, XShader.Draw, ordered_calls, List.forall_mem_cons,
    ordered_locked, lt_iff]
  simpa using ⟨h, h7⟩

theorem ordered_viewClose (held : List Mutex) (h : ∀ m ∈ held, m.rank < 5) :
    GLVideoView.Close.Ordered Mutex.lt held := by
  have h6 : ∀ m ∈ held, m.rank < 6 := fun m hm => (h m hm).trans (by decide)
  have h7 : ∀ m ∈ held, m.rank < 7 := fun m hm => (h m hm).trans (by decide)
  refine ⟨h, fun n => ?_⟩
  simp only [Code.ordered_opt, CXTexture.Drop, Code.Ordered, XEGL.Close, XShader.Close, ordered_calls,
    List.forall_mem_cons, ordered_locked, lt_iff]
  simpa using ⟨h6, h7⟩

/-- `Clear` and `Close` of a decoder below the player's mutex. -/
theorem ordered_clear (d : Dec) (held : List Mutex) (h : ∀ m ∈ held, m.rank < 3) :
    (FFDecode.Clear d).Ordered Mutex.lt held ∧ (FFDecode.Close d).Ordered Mutex.lt held := by
  have h7 : ∀ m ∈ held, m.rank < 7 := fun m hm => (h m hm).trans (by decide)
  simp only [FFDecode.Clear, FFDecode.Close, IDecode.Clear, ordered_calls, List.forall_mem_cons,
    ordered_locked, lt_iff]
  simpa using ⟨h, h7⟩

theorem ordered_close : IPlayer.Close.Ordered Mutex.lt [.proxy] := by
  have hd := fun d => ordered_clear d [.player, .proxy] (by simp [Mutex.rank])
  have hv := ordered_viewClose [.player, .proxy] (by simp [Mutex.rank])
  simp [IPlayer.Close, Code.Ordered, ordered_calls, ordered_locked, IAudioPlay.Clear, SLAudioPlay.Close,
    FFDemux.Close, lt_iff, Mutex.rank, hd, hv]

theorem ordered_open : IPlayer.Open.Ordered Mutex.lt [.proxy] := by
  have hd := fun d => ordered_clear d [.player, .proxy] (by simp [Mutex.rank])
  simp [IPlayer.Open, ordered_close, Code.Ordered, ordered_calls, ordered_locked, FFDemux.Open, FFDemux.Close,
    FFDemux.GetPara, FFDecode.Open, lt_iff, Mutex.rank, hd]

theorem ordered_start : IPlayer.Start.Ordered Mutex.lt [.proxy] := by
  simp [IPlayer.Start, Code.Ordered, ordered_calls, ordered_locked, SLAudioPlay.StartPlay, SLAudioPlay.Close,
    IAudioPlay.Clear, lt_iff, Mutex.rank]

theorem ordered_seek : IPlayer.Seek.Ordered Mutex.lt [.proxy] := by
  have hd := fun d => ordered_clear d [.player, .proxy] (by simp [Mutex.rank])
  simp [IPlayer.Seek, IPlayer.SetPause, Code.Ordered, ordered_calls, ordered_locked, IAudioPlay.Clear,
    FFDemux.Seek, FFDemux.Read, IObserver.Notify, IDecode.Update, FFDecode.SendPacket, FFDecode.RecvFrame,
    lt_iff, Mutex.rank, hd]

theorem ordered_jni : ∀ c ∈ jni, c.Ordered Mutex.lt [] := by
  have hv := ordered_viewClose [.proxy] (by simp [Mutex.rank])
  simp [jni, IPlayerPorxy.Call, IPlayerPorxy.Init, IPlayer.InitView, Code.Ordered, ordered_calls,
    ordered_locked, IObserver.AddObserver, IPlayer.SetPause, IPlayer.PlayPos, ordered_open, ordered_start,
    ordered_seek, ordered_close, hv, lt_iff, Mutex.rank]

theorem ordered_decode (d : Dec) (update : Code Mutex)
    (h : update.Ordered Mutex.lt [.observer (.dec d), .packs d]) :
    (IDecode.Main d update).Ordered Mutex.lt [] := by
  simp [IDecode.Main, Code.Ordered, ordered_calls, ordered_locked, FFDecode.SendPacket, FFDecode.RecvFrame,
    IObserver.Notify, lt_iff, Mutex.rank, h]

theorem ordered_threadMain (t : ThreadId) : (threadMain true t).Ordered Mutex.lt [] := by
  cases t with
  | ui =>
    intro n
    show (jni[n]?.getD .skip).Ordered Mutex.lt []
    rcases hn : jni[n]? with _ | c
    · trivial
    · exact ordered_jni c (List.mem_of_getElem? hn)
  | progress =>
    simp [threadMain, IPlayerPorxy.Call, IPlayer.PlayPos, Code.Ordered, ordered_locked, lt_iff, Mutex.rank]
  | demux n =>
    simp [threadMain, IDemux.Main, FFDemux.Read, IObserver.Notify, IDecode.Update, Code.Ordered, ordered_calls,
      ordered_locked, lt_iff, Mutex.rank]
  | dec d n =>
    cases d with
    | video => exact ordered_decode _ _ (ordered_render _ (by simp [Mutex.rank]))
    | audio =>
      refine ordered_decode _ _ ?_
      simp [IResample.Update, FFResample.Resample, IObserver.Notify, IAudioPlay.Update, Code.Ordered,
        ordered_calls, ordered_locked, lt_iff, Mutex.rank]
  | sync n => simp [threadMain, IPlayer.Main, Code.Ordered, ordered_locked]
  | callback n =>
    simp [threadMain, SLAudioPlay.PlayCall, IAudioPlay.GetData, Code.Ordered, ordered_calls, ordered_locked]

/-- The mutexes of the player have a strict order such that in every reachable state every thread
requests a mutex only above all it holds; so nobody waits for itself, alone or through others. -/
theorem mutex_ordered : ∃ lt : Mutex → Mutex → Prop, IsStrictOrder Mutex lt ∧
    ∀ s : State ThreadId Mutex, (locks (threadMain true)).Reach Sys.any s →
      (∀ t m, s.Requests t m → ∀ h ∈ s.held t, lt h m) ∧ ∀ t, ¬ Relation.TransGen s.Waits t t := by
  refine ⟨Mutex.lt, inferInstance, fun s hs => ?_⟩
  have h := requests_above ordered_threadMain hs
  exact ⟨h, not_waits_cyclic h⟩

end XPlayer
