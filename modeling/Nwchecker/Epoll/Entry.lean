import Nwchecker.Types

/-!
# Entries of the epoll looper

`struct epoll_entry` and what `nwc_epoll_looper.c` does to one entry. The looper that owns the
entries is in `Nwchecker/Epoll/Looper.lean`.

`epoll_ctl` is outside: its answer (`0`, or the `errno` that `__nwc_epoll_ctl` returns) is a
parameter.
-/

namespace Nwchecker

/-- The bits `EM_READ` and `EM_WRITE` of an `int` event mask. -/
structure EventMask where
  read : Bool
  write : Bool
  deriving DecidableEq, Repr

def emNone : EventMask := ⟨false, false⟩
def EM_READ : EventMask := ⟨true, false⟩
def EM_WRITE : EventMask := ⟨false, true⟩
def EM_ALL : EventMask := ⟨true, true⟩

/-- `mask | events` -/
def EventMask.add (m e : EventMask) : EventMask := ⟨m.read || e.read, m.write || e.write⟩

/-- `mask & (~events)` -/
def EventMask.cancel (m e : EventMask) : EventMask := ⟨m.read && !e.read, m.write && !e.write⟩

/-- `INVALID_HANDLE` where it stands for a descriptor. -/
def invalidFd : Int := -1

/-- `struct epoll_entry`. `eh` names the io handler the entry points at. -/
structure EpollEntry where
  mask : EventMask
  fd : Int
  eh : Nat
  deriving DecidableEq, Repr

/-- `nwc_epoll_add_handler`: `none` is `INVALID_HANDLE`. `ctl` answers `EPOLL_CTL_ADD`. -/
def nwcEpollAddHandler (fd : Int) (eh : Nat) (ctl : Int) : Option EpollEntry :=
  if ctl = 0 then some { mask := emNone, fd := fd, eh := eh } else none

/-- `nwc_epoll_remove_handler`, as far as the entry itself goes. -/
def nwcEpollRemoveHandler (e : EpollEntry) : EpollEntry :=
  { e with mask := emNone, fd := invalidFd }

/-- `nwc_epoll_register_event`: the mask is changed whatever `epoll_ctl` says. -/
def nwcEpollRegisterEvent (e : EpollEntry) (events : EventMask) : EpollEntry :=
  { e with mask := e.mask.add events }

/-- `nwc_epoll_cancel_event`. -/
def nwcEpollCancelEvent (e : EpollEntry) (events : EventMask) : EpollEntry :=
  { e with mask := e.mask.cancel events }

/-- `entry->fd != INVALID_HANDLE`, what `nwc_epoll_run` asks before each callback. -/
def EpollEntry.armed (e : EpollEntry) : Bool := e.fd != invalidFd

@[simp] theorem nwcEpollRemoveHandler_armed (e : EpollEntry) :
    (nwcEpollRemoveHandler e).armed = false := by
  simp [EpollEntry.armed, nwcEpollRemoveHandler]

/-- After `EM_WRITE` is cancelled the mask does not have it. -/
@[simp] theorem EventMask.cancel_write (m : EventMask) : (m.cancel EM_WRITE).write = false := by
  simp [EventMask.cancel, EM_WRITE]

/-! ## Dispatch -/

/-- The bits of `ev_list[i].events` that `nwc_epoll_run` looks at. -/
structure ReadyFlags where
  hup : Bool
  err : Bool
  rdhup : Bool
  input : Bool
  output : Bool
  deriving DecidableEq, Repr

/-- `events & (EPOLLHUP | EPOLLERR|EPOLLRDHUP)` -/
def ReadyFlags.broken (f : ReadyFlags) : Bool := f.hup || f.err || f.rdhup

/--
The body of the dispatch loop of `nwc_epoll_run` for one ready event.

`armed` reads `entry->fd`. The three callbacks are `handle_input` for a broken connection,
`handle_input` for readable data and `handle_output`; what they do depends on the state, so the
body is generic in it.
-/
def nwcEpollDispatch {σ : Type} (armed : σ → Bool) (onBroken onInput onOutput : σ → σ)
    (f : ReadyFlags) (s : σ) : σ :=
  if armed s then
    let s₁ := if f.broken then onBroken s else s
    if armed s₁ then
      let s₂ := if f.input then onInput s₁ else s₁
      if armed s₂ then
        if f.output then onOutput s₂ else s₂
      else s₂
    else s₁
  else s

section
variable {σ : Type} {armed : σ → Bool} {onBroken onInput onOutput : σ → σ}

/-- After the callback for a broken connection the rest of the event is dispatched. -/
theorem nwcEpollDispatch_broken {f : ReadyFlags} {s : σ} (ha : armed s = true)
    (hb : f.broken = true) :
    nwcEpollDispatch armed onBroken onInput onOutput f s
      = nwcEpollDispatch armed onBroken onInput onOutput
          { f with hup := false, err := false, rdhup := false } (onBroken s) := by
  have hq : ReadyFlags.broken { f with hup := false, err := false, rdhup := false } = false := rfl
  by_cases h1 : armed (onBroken s) = true
  · simp [nwcEpollDispatch, ha, hb, hq, h1]
  · simp [nwcEpollDispatch, ha, hb, h1]

/-- After the callback for readable data it is the turn of the output. -/
theorem nwcEpollDispatch_input {f : ReadyFlags} {s : σ} (ha : armed s = true)
    (hb : f.broken = false) (hi : f.input = true) :
    nwcEpollDispatch armed onBroken onInput onOutput f s
      = nwcEpollDispatch armed onBroken onInput onOutput { f with input := false } (onInput s) := by
  have hq : ReadyFlags.broken { f with input := false } = false := hb
  by_cases h1 : armed (onInput s) = true
  · simp [nwcEpollDispatch, ha, hb, hi, hq, h1]
  · simp [nwcEpollDispatch, ha, hb, hi, h1]

end

/--
What every callback keeps while its entry is armed, the dispatch of an event keeps.

`R s t` is the relation between the state before and the state after, so it covers both
invariants and what a callback may change.
-/
theorem nwcEpollDispatch_rel {σ : Type} {armed : σ → Bool} {onBroken onInput onOutput : σ → σ}
    {R : σ → σ → Prop} (hrefl : ∀ s, R s s) (htrans : ∀ s t u, R s t → R t u → R s u)
    (f : ReadyFlags) (s : σ)
    (hb : ∀ t, f.broken = true → armed t = true → R t (onBroken t))
    (hi : ∀ t, f.input = true → armed t = true → R t (onInput t))
    (ho : ∀ t, f.output = true → armed t = true → R t (onOutput t)) :
    R s (nwcEpollDispatch armed onBroken onInput onOutput f s) := by
  unfold nwcEpollDispatch
  split
  · next h0 =>
    have h1 : R s (if f.broken then onBroken s else s) := by
      split
      · next hf => exact hb s hf h0
      · exact hrefl s
    generalize (if f.broken then onBroken s else s) = s₁ at h1 ⊢
    dsimp only
    split
    · next ha1 =>
      have h2 : R s₁ (if f.input then onInput s₁ else s₁) := by
        split
        · next hf => exact hi s₁ hf ha1
        · exact hrefl s₁
      generalize (if f.input then onInput s₁ else s₁) = s₂ at h2 ⊢
      split
      · next ha2 =>
        split
        · next hf => exact htrans _ _ _ h1 (htrans _ _ _ h2 (ho s₂ hf ha2))
        · exact htrans _ _ _ h1 h2
      · exact htrans _ _ _ h1 h2
    · exact h1
  · exact hrefl s

end Nwchecker
