import Brynet.Lib.Custody
import Brynet.Lib.OrderedMap
import Brynet.Net.AsyncConnector
import Brynet.Net.Connector
import Brynet.Net.FdSet
import Mathlib.Data.List.Sort

/-!
# Descriptors of a `ConnectorWorkInfo`

The four operations of the connector's worker with what they do to descriptors.  A
descriptor comes from `SocketCreate`, waits in `mConnectingInfos` and in `mFDSet`, and
is closed or moved into a success callback; `ledger`, which is not in the source, is
the record of that.  Callbacks do not call back into the connector, so an operation is
one step.

The environment chooses what the system calls return.  The kernel gives a new socket
any number that is not that of a descriptor the connector holds.  `malloc` says whether
the array of `mFDSet` can grow; the set itself is there.
-/

namespace Brynet

open Transition

/-- What happens to descriptors, and the calls of callbacks.  `success` moves the socket
into the callback. -/
inductive FdEvent
  | create (fd : Sock)
  | close (fd : Sock)
  | success (cb : ℕ) (fd : Sock)
  | failed (cb : ℕ)
deriving Repr, DecidableEq

/-- What an event does with the descriptor `fd`. -/
def FdEvent.act (fd : Sock) : FdEvent → Option Custody.Act
  | create other => if other = fd then some .taken else none
  | close other | success _ other => if other = fd then some .given else none
  | failed _ => none

structure ConnectingInfo where
  startConnectTime : Int64
  timeout : Int64
  successCB : Option ℕ
  failedCB : Option ℕ
deriving DecidableEq

structure ConnectorWorkInfo where
  mConnectingInfos : List (Sock × ConnectingInfo)
  mFDSet : FdSet
  ledger : List FdEvent

/-- What `poll` says of an entry of its array, that it can be written to, and what
`getsockopt` then says of a descriptor: its error, if that can be had. -/
structure PollResult where
  writable : ℕ → Bool
  soError : Sock → Option ℤ

/-- The operations with the results of their system calls.  In `checkConnectStatus`,
`none` is a `poll` that reports nothing; `now` of `checkTimeout` is the clock when the
loop comes to a descriptor. -/
inductive WorkCall
  | processConnect (addr : AsyncConnectAddr) (r : ConnectResult) (now : Int64) (malloc : Bool)
  | checkConnectStatus (poll : Option PollResult)
  | checkTimeout (now : Sock → Int64)
  | causeAllFailed

/-- The call does not fail to make the array of `mFDSet` grow. -/
def WorkCall.Grows : WorkCall → Prop
  | processConnect _ _ _ malloc => malloc = true
  | _ => True

/-- The elements of a `std::set` with these inserted, in the order of a loop over it. -/
def stdSet (fds : List Sock) : List Sock := fds.dedup.insertionSort (· ≤ ·)

def PollResult.isConnectSuccess (poll : PollResult) (fd : Sock) : Bool := poll.soError fd = some 0

namespace ConnectorWorkInfo

def new (malloc : Bool) : ConnectorWorkInfo where
  mConnectingInfos := []
  mFDSet := .new malloc
  ledger := []

def log (s : ConnectorWorkInfo) (e : FdEvent) : ConnectorWorkInfo :=
  { s with ledger := s.ledger ++ [e] }

def callFailed (s : ConnectorWorkInfo) : Option ℕ → ConnectorWorkInfo
  | some cb => s.log (.failed cb)
  | none => s

def fdsetRemove (s : ConnectorWorkInfo) (fd : Sock) : ConnectorWorkInfo :=
  { s with mFDSet := s.mFDSet.remove fd }

def eraseInfo (s : ConnectorWorkInfo) (fd : Sock) : ConnectorWorkInfo :=
  { s with mConnectingInfos := OrderedMap.erase fd s.mConnectingInfos }

/-- Without a success callback nobody takes the socket. -/
def connected (s : ConnectorWorkInfo) (fd : Sock) : Option ℕ → ConnectorWorkInfo
  | some cb => s.log (.success cb fd)
  | none => s

def processConnect (s : ConnectorWorkInfo) (addr : AsyncConnectAddr) (now : Int64)
    (malloc : Bool) : ConnectResult → ConnectorWorkInfo
  | .noSocket => s.callFailed addr.failedCB
  | .connected fd => (s.log (.create fd)).connected fd addr.successCB
  | .refused fd => ((s.log (.create fd)).log (.close fd)).callFailed addr.failedCB
  | .inProgress fd =>
      let ci : ConnectingInfo :=
        { startConnectTime := now
          timeout := addr.timeout
          successCB := addr.successCB
          failedCB := addr.failedCB }
      { s.log (.create fd) with
        mConnectingInfos := OrderedMap.assign fd ci s.mConnectingInfos
        mFDSet := s.mFDSet.add malloc fd false true }

/-- The `TcpSocket` made for `fd` goes to the success callback, or is closed when the turn
of the loop ends. -/
def finish (s : ConnectorWorkInfo) (fd : Sock) (info : ConnectingInfo) (success : Bool) :
    ConnectorWorkInfo :=
  if success then
    match info.successCB with
    | some cb => (s.log (.success cb fd)).eraseInfo fd
    | none => (s.eraseInfo fd).log (.close fd)
  else ((s.callFailed info.failedCB).eraseInfo fd).log (.close fd)

/-- A turn of the loop over `total_fds`. -/
def statusTurn (poll : PollResult) (s : ConnectorWorkInfo) (fd : Sock) : ConnectorWorkInfo :=
  match OrderedMap.find fd s.mConnectingInfos with
  | none => s.fdsetRemove fd
  | some info => (s.fdsetRemove fd).finish fd info (poll.isConnectSuccess fd)

def checkConnectStatus (s : ConnectorWorkInfo) : Option PollResult → ConnectorWorkInfo
  | none => s
  | some poll => (stdSet (s.mFDSet.visitor poll.writable [])).foldl (statusTurn poll) s

/-- A turn of the loop of `checkTimeout`. -/
def timeoutTurn (now : Sock → Int64) (s : ConnectorWorkInfo) (entry : Sock × ConnectingInfo) :
    ConnectorWorkInfo :=
  let (fd, info) := entry
  if now fd - info.startConnectTime < info.timeout then s
  else (((s.fdsetRemove fd).eraseInfo fd).log (.close fd)).callFailed info.failedCB

def checkTimeout (s : ConnectorWorkInfo) (now : Sock → Int64) : ConnectorWorkInfo :=
  s.mConnectingInfos.foldl (timeoutTurn now) s

/-- A turn of the loop of `causeAllFailed`. -/
def failTurn (s : ConnectorWorkInfo) (entry : Sock × ConnectingInfo) : ConnectorWorkInfo :=
  let (fd, info) := entry
  ((s.fdsetRemove fd).log (.close fd)).callFailed info.failedCB

def causeAllFailed (s : ConnectorWorkInfo) : ConnectorWorkInfo :=
  s.mConnectingInfos.foldl failTurn { s with mConnectingInfos := [] }

/-- Whether the kernel may give this result. -/
def mayReturn (s : ConnectorWorkInfo) (r : ConnectResult) : Bool :=
  r.fd?.all fun fd => !Custody.isHeld FdEvent.act fd s.ledger

/-- `asyncConnect`, which makes the only calls of `processConnect`, refuses an address
without a success callback.  It also asks for a failure callback, which nothing here needs. -/
def next (s : ConnectorWorkInfo) : WorkCall → Option ConnectorWorkInfo
  | .processConnect addr r now malloc =>
      if addr.successCB.isSome && s.mayReturn r then
        some (s.processConnect addr now malloc r)
      else none
  | .checkConnectStatus poll => some (s.checkConnectStatus poll)
  | .checkTimeout now => some (s.checkTimeout now)
  | .causeAllFailed => some s.causeAllFailed

def system : System ConnectorWorkInfo WorkCall where
  init s := ∃ malloc, s = new malloc
  next := next

/-! ## The account -/

/-- The descriptors `held` are those the ledger has not seen off, and those registered are
among them; with `complete`, they are all of them. -/
structure Owns (complete : Bool) (fdset : FdSet) (ledger : List FdEvent) (held : List Sock) :
    Prop where
  held_nodup : held.Nodup
  fds_nodup : fdset.fds.Nodup
  registered : ∀ fd ∈ fdset.fds, fd ∈ held
  all_registered : complete = true → ∀ fd ∈ held, fd ∈ fdset.fds
  accounted : Custody.Accounted FdEvent.act ledger held

/-- The event is the end of `fd` for the connector. -/
def SeesOff (e : FdEvent) (fd : Sock) : Prop :=
  e = .close fd ∨ ∃ cb, e = .success cb fd

variable {s s' : ConnectorWorkInfo} {complete malloc : Bool} {fdset : FdSet}
  {ledger : List FdEvent} {held held' : List Sock} {fd : Sock} {e : FdEvent}

theorem SeesOff.act_self (h : SeesOff e fd) : e.act fd = some .given := by
  obtain rfl | ⟨cb, rfl⟩ := h
  · simp [FdEvent.act]
  · simp [FdEvent.act]

theorem SeesOff.act_other (h : SeesOff e fd) (other : Sock) (hne : other ≠ fd) :
    e.act other = none := by
  obtain rfl | ⟨cb, rfl⟩ := h
  · simp [FdEvent.act, hne.symm]
  · simp [FdEvent.act, hne.symm]

namespace Owns

theorem new (complete malloc : Bool) : Owns complete (.new malloc) [] [] where
  held_nodup := List.nodup_nil
  fds_nodup := by simp
  registered := by simp
  all_registered := by simp
  accounted := .nil

theorem perm (h : Owns complete fdset ledger held) (hperm : held'.Perm held) :
    Owns complete fdset ledger held' where
  held_nodup := hperm.nodup_iff.mpr h.held_nodup
  fds_nodup := h.fds_nodup
  registered fd hfd := hperm.mem_iff.mpr (h.registered fd hfd)
  all_registered hcomplete fd hfd := h.all_registered hcomplete fd (hperm.mem_iff.mp hfd)
  accounted := h.accounted.congr fun _ => hperm.mem_iff

theorem failed (h : Owns complete fdset ledger held) (cb : ℕ) :
    Owns complete fdset (ledger ++ [.failed cb]) held :=
  { h with accounted := h.accounted.idle fun _ => rfl }

theorem accounted_create (h : Owns complete fdset ledger held) (hfd : fd ∉ held) :
    Custody.Accounted FdEvent.act (ledger ++ [.create fd]) (fd :: held) := by
  apply h.accounted.take hfd
  · simp [FdEvent.act]
  · intro other hne
    simp [FdEvent.act, hne.symm]

/-- A descriptor that is seen off in the operation that created it. -/
theorem through (h : Owns complete fdset ledger held) (hfd : fd ∉ held) (he : SeesOff e fd) :
    Owns complete fdset (ledger ++ [.create fd] ++ [e]) held :=
  { h with accounted := (h.accounted_create hfd).give hfd he.act_self he.act_other }

/-- A descriptor that is kept. -/
theorem keep (h : Owns complete fdset ledger held) (hfd : fd ∉ held)
    (hmalloc : complete = true → malloc = true) :
    Owns complete (fdset.add malloc fd false true) (ledger ++ [.create fd]) (fd :: held) := by
  have hnew : fd ∉ fdset.fds := fun hmem => hfd (h.registered fd hmem)
  have hheld : (fd :: held).Nodup := List.nodup_cons.mpr ⟨hfd, h.held_nodup⟩
  obtain hfds | ⟨hfull, hfds⟩ := FdSet.fds_add malloc false true hnew
  · have hperm : (fdset.add malloc fd false true).fds.Perm (fd :: fdset.fds) := by
      rw [hfds]
      exact List.perm_append_comm
    refine ⟨hheld, ?_, ?_, ?_, h.accounted_create hfd⟩
    · exact hperm.nodup_iff.mpr (List.nodup_cons.mpr ⟨hnew, h.fds_nodup⟩)
    · intro other hother
      exact List.cons_subset_cons fd h.registered (hperm.mem_iff.mp hother)
    · intro hcomplete other hother
      exact hperm.mem_iff.mpr (List.cons_subset_cons fd (h.all_registered hcomplete) hother)
  · refine ⟨hheld, ?_, ?_, ?_, h.accounted_create hfd⟩
    · rw [hfds]
      exact h.fds_nodup
    · intro other hother
      rw [hfds] at hother
      exact List.mem_cons_of_mem fd (h.registered other hother)
    · intro hcomplete
      rw [hmalloc hcomplete] at hfull
      cases hfull

/-- A held descriptor that is seen off. -/
theorem drop (h : Owns complete fdset ledger (fd :: held)) (he : SeesOff e fd) :
    Owns complete (fdset.remove fd) (ledger ++ [e]) held := by
  have hheld := List.nodup_cons.mp h.held_nodup
  refine ⟨hheld.2, ?_, ?_, ?_, h.accounted.give hheld.1 he.act_self he.act_other⟩
  · rw [FdSet.fds_remove]
    exact h.fds_nodup.erase fd
  · intro other hother
    rw [FdSet.fds_remove, h.fds_nodup.mem_erase_iff] at hother
    exact (List.mem_cons.mp (h.registered other hother.2)).resolve_left hother.1
  · intro hcomplete other hother
    rw [FdSet.fds_remove, h.fds_nodup.mem_erase_iff]
    have hne : other ≠ fd := fun heq => hheld.1 (heq ▸ hother)
    exact ⟨hne, h.all_registered hcomplete other (List.mem_cons_of_mem fd hother)⟩

theorem remove_absent (h : Owns complete fdset ledger held) (hfd : fd ∉ held) :
    Owns complete (fdset.remove fd) ledger held := by
  have hfds : (fdset.remove fd).fds = fdset.fds := by
    rw [FdSet.fds_remove]
    exact List.erase_of_not_mem fun hmem => hfd (h.registered fd hmem)
  exact
    { h with
      fds_nodup := hfds ▸ h.fds_nodup
      registered := hfds ▸ h.registered
      all_registered := hfds ▸ h.all_registered }

end Owns

/-- Between two operations the descriptors held are the keys of `mConnectingInfos`. -/
def Sound (complete : Bool) (s : ConnectorWorkInfo) : Prop :=
  Owns complete s.mFDSet s.ledger (OrderedMap.keys s.mConnectingInfos)

theorem Owns.callFailed (h : Owns complete s.mFDSet s.ledger held) (cb : Option ℕ) :
    Owns complete (s.callFailed cb).mFDSet (s.callFailed cb).ledger held := by
  cases cb with
  | none => exact h
  | some cb => exact h.failed cb

theorem callFailed_infos (s : ConnectorWorkInfo) (cb : Option ℕ) :
    (s.callFailed cb).mConnectingInfos = s.mConnectingInfos := by
  cases cb <;> rfl

theorem Sound.callFailed (h : s.Sound complete) (cb : Option ℕ) :
    (s.callFailed cb).Sound complete := by
  unfold Sound
  rw [callFailed_infos]
  exact Owns.callFailed h cb

theorem Sound.processConnect (h : s.Sound complete) {addr : AsyncConnectAddr} {r : ConnectResult}
    (hsuccess : addr.successCB.isSome) (hreturn : s.mayReturn r = true) (now : Int64)
    (hmalloc : complete = true → malloc = true) :
    (s.processConnect addr now malloc r).Sound complete := by
  have hfresh : ∀ fd, r.fd? = some fd → fd ∉ OrderedMap.keys s.mConnectingInfos := by
    intro fd hfd hkey
    have hheld := h.accounted.isHeld_iff.mpr hkey
    simp [mayReturn, hfd, hheld] at hreturn
  cases r with
  | noSocket => exact h.callFailed addr.failedCB
  | connected fd =>
      obtain ⟨cb, hcb⟩ := Option.isSome_iff_exists.mp hsuccess
      simp only [ConnectorWorkInfo.processConnect, hcb]
      exact h.through (hfresh fd rfl) (.inr ⟨cb, rfl⟩)
  | refused fd =>
      have hclosed : ((s.log (.create fd)).log (.close fd)).Sound complete :=
        h.through (hfresh fd rfl) (.inl rfl)
      exact hclosed.callFailed addr.failedCB
  | inProgress fd =>
      exact (h.keep (hfresh fd rfl) hmalloc).perm
        (OrderedMap.keys_assign_perm _ (hfresh fd rfl))

/-- A descriptor under which there is an entry is taken out of the map, the set and the
ledger. -/
theorem Sound.drop (h : s.Sound complete) (hfd : fd ∈ OrderedMap.keys s.mConnectingInfos)
    (he : SeesOff e fd) : (((s.fdsetRemove fd).eraseInfo fd).log e).Sound complete := by
  have hheld := h.perm (OrderedMap.keys_perm_erase h.held_nodup hfd).symm
  exact hheld.drop he

theorem callFailed_fdsetRemove (s : ConnectorWorkInfo) (fd : Sock) (cb : Option ℕ) :
    (s.fdsetRemove fd).callFailed cb = (s.callFailed cb).fdsetRemove fd := by
  cases cb <;> rfl

theorem Sound.finish (h : s.Sound complete) (hfd : fd ∈ OrderedMap.keys s.mConnectingInfos)
    (info : ConnectingInfo) (success : Bool) :
    ((s.fdsetRemove fd).finish fd info success).Sound complete := by
  unfold ConnectorWorkInfo.finish
  cases success with
  | true =>
      rw [if_pos rfl]
      cases info.successCB with
      | none => exact h.drop hfd (.inl rfl)
      | some cb => exact h.drop hfd (.inr ⟨cb, rfl⟩)
  | false =>
      rw [if_neg Bool.false_ne_true, callFailed_fdsetRemove]
      refine (h.callFailed info.failedCB).drop ?_ (.inl rfl)
      rw [callFailed_infos]
      exact hfd

theorem Sound.statusTurn (h : s.Sound complete) (poll : PollResult) (fd : Sock) :
    (s.statusTurn poll fd).Sound complete := by
  unfold ConnectorWorkInfo.statusTurn
  cases hfind : OrderedMap.find fd s.mConnectingInfos with
  | none => exact h.remove_absent (OrderedMap.not_mem_keys_of_find hfind)
  | some info => exact h.finish (OrderedMap.mem_keys_of_find hfind) info _

/-- The loop over `total_fds`. -/
theorem Sound.statusTurns (h : s.Sound complete) (poll : PollResult) (fds : List Sock) :
    (fds.foldl (ConnectorWorkInfo.statusTurn poll) s).Sound complete := by
  induction fds generalizing s with
  | nil => exact h
  | cons fd rest ih => exact ih (h.statusTurn poll fd)

theorem Sound.checkConnectStatus (h : s.Sound complete) (poll : Option PollResult) :
    (s.checkConnectStatus poll).Sound complete := by
  cases poll with
  | none => exact h
  | some poll => exact h.statusTurns poll _

/-- A turn of `checkTimeout` leaves the entries the loop has still to come to. -/
theorem timeoutTurn_keys (now : Sock → Int64) (entry : Sock × ConnectingInfo) {other : Sock}
    (hne : other ≠ entry.1) (h : other ∈ OrderedMap.keys s.mConnectingInfos) :
    other ∈ OrderedMap.keys (s.timeoutTurn now entry).mConnectingInfos := by
  obtain ⟨fd, info⟩ := entry
  by_cases hwait : now fd - info.startConnectTime < info.timeout
  · simpa only [timeoutTurn, if_pos hwait] using h
  · simp only [timeoutTurn, if_neg hwait, callFailed_infos]
    change other ∈ OrderedMap.keys (OrderedMap.erase fd s.mConnectingInfos)
    rw [OrderedMap.keys_erase, List.mem_filter]
    exact ⟨h, by simpa using hne⟩

theorem Sound.timeoutTurn (h : s.Sound complete) (now : Sock → Int64)
    {entry : Sock × ConnectingInfo} (hentry : entry.1 ∈ OrderedMap.keys s.mConnectingInfos) :
    (s.timeoutTurn now entry).Sound complete := by
  obtain ⟨fd, info⟩ := entry
  by_cases hwait : now fd - info.startConnectTime < info.timeout
  · simpa only [ConnectorWorkInfo.timeoutTurn, if_pos hwait] using h
  · simp only [ConnectorWorkInfo.timeoutTurn, if_neg hwait]
    exact (h.drop hentry (.inl rfl)).callFailed info.failedCB

/-- The loop of `checkTimeout` from any of its turns. -/
theorem Sound.timeoutTurns (h : s.Sound complete) (now : Sock → Int64)
    {rest : List (Sock × ConnectingInfo)} (hnodup : (OrderedMap.keys rest).Nodup)
    (hrest : ∀ fd ∈ OrderedMap.keys rest, fd ∈ OrderedMap.keys s.mConnectingInfos) :
    (rest.foldl (ConnectorWorkInfo.timeoutTurn now) s).Sound complete := by
  induction rest generalizing s with
  | nil => exact h
  | cons entry rest ih =>
      simp only [OrderedMap.keys, List.map_cons, List.nodup_cons] at hnodup
      refine ih (h.timeoutTurn now (hrest entry.1 List.mem_cons_self)) hnodup.2 ?_
      intro other hother
      have hne : other ≠ entry.1 := fun heq => hnodup.1 (heq ▸ hother)
      exact timeoutTurn_keys now entry hne (hrest other (List.mem_cons_of_mem _ hother))

theorem Sound.checkTimeout (h : s.Sound complete) (now : Sock → Int64) :
    (s.checkTimeout now).Sound complete :=
  h.timeoutTurns now h.held_nodup fun _ hfd => hfd

/-- The loop of `causeAllFailed` from any of its turns: the copy of the map has what is
held. -/
theorem Owns.failTurns {rest : List (Sock × ConnectingInfo)}
    (h : Owns complete s.mFDSet s.ledger (OrderedMap.keys rest)) :
    Owns complete (rest.foldl failTurn s).mFDSet (rest.foldl failTurn s).ledger [] := by
  induction rest generalizing s with
  | nil => exact h
  | cons entry rest ih =>
      have hclosed : Owns complete ((s.fdsetRemove entry.1).log (.close entry.1)).mFDSet
          ((s.fdsetRemove entry.1).log (.close entry.1)).ledger (OrderedMap.keys rest) :=
        h.drop (.inl rfl)
      exact ih (hclosed.callFailed entry.2.failedCB)

theorem failTurns_infos (rest : List (Sock × ConnectingInfo)) :
    (rest.foldl failTurn s).mConnectingInfos = s.mConnectingInfos := by
  induction rest generalizing s with
  | nil => rfl
  | cons entry rest ih =>
      rw [List.foldl_cons, ih]
      exact callFailed_infos _ _

theorem causeAllFailed_infos (s : ConnectorWorkInfo) : s.causeAllFailed.mConnectingInfos = [] :=
  failTurns_infos _

theorem Sound.causeAllFailed (h : s.Sound complete) : s.causeAllFailed.Sound complete := by
  unfold Sound
  rw [causeAllFailed_infos]
  exact Owns.failTurns h

/-- **Every operation keeps the account.** -/
theorem Sound.next {call : WorkCall} (h : s.Sound complete)
    (hgrows : complete = true → call.Grows) (hnext : s.next call = some s') :
    s'.Sound complete := by
  cases call with
  | processConnect addr r now malloc =>
      simp only [ConnectorWorkInfo.next, Option.ite_none_right_eq_some, Bool.and_eq_true,
        Option.some.injEq] at hnext
      obtain ⟨⟨hsuccess, hreturn⟩, rfl⟩ := hnext
      exact h.processConnect hsuccess hreturn now hgrows
  | checkConnectStatus poll =>
      cases hnext
      exact h.checkConnectStatus poll
  | checkTimeout now =>
      cases hnext
      exact h.checkTimeout now
  | causeAllFailed =>
      cases hnext
      exact h.causeAllFailed

theorem sound_of_run {calls : List WorkCall} (complete : Bool)
    (hgrows : complete = true → ∀ call ∈ calls, call.Grows)
    (hrun : system.run (new malloc) calls = some s) : s.Sound complete := by
  refine System.run_induction
    (I := fun calls s => (complete = true → ∀ call ∈ calls, call.Grows) → s.Sound complete)
    ?_ ?_ hrun hgrows
  · exact fun _ => Owns.new complete malloc
  · intro calls mid call s hmid hnext hgrows
    have hsound : mid.Sound complete :=
      hmid fun hcomplete other hother => hgrows hcomplete other (List.mem_append_left _ hother)
    have hcall : complete = true → call.Grows :=
      fun hcomplete => hgrows hcomplete call (List.mem_append_right _ List.mem_cons_self)
    exact hsound.next hcall hnext

/-- **Descriptors of the connector.**  After any operations, every key of `mConnectingInfos`
and every descriptor of `mFDSet` is there once; a registered descriptor is a key; and as long
as the array of the set could grow when it was full, a key is a registered descriptor.  With
`causeAllFailed` as the last operation every descriptor that `SocketCreate` returned has been
closed or moved into a success callback, once. -/
theorem descriptors_seen_off {calls : List WorkCall}
    (hrun : system.run (new malloc) calls = some s) :
    (OrderedMap.keys s.mConnectingInfos).Nodup ∧ s.mFDSet.fds.Nodup ∧
    (∀ fd ∈ s.mFDSet.fds, fd ∈ OrderedMap.keys s.mConnectingInfos) ∧
    ((∀ call ∈ calls, call.Grows) →
      ∀ fd, fd ∈ OrderedMap.keys s.mConnectingInfos ↔ fd ∈ s.mFDSet.fds) ∧
    ∀ fd, ∃ n, Custody.history FdEvent.act fd s.causeAllFailed.ledger = Custody.rounds n := by
  have hsound : s.Sound false := sound_of_run false (fun hfalse => by cases hfalse) hrun
  refine ⟨hsound.held_nodup, hsound.fds_nodup, hsound.registered, ?_, ?_⟩
  · intro hgrows fd
    have hall : s.Sound true := sound_of_run true (fun _ => hgrows) hrun
    exact ⟨hall.all_registered rfl fd, hall.registered fd⟩
  · intro fd
    obtain ⟨n, hn⟩ := hsound.causeAllFailed.accounted fd
    rw [causeAllFailed_infos] at hn
    exact ⟨n, by simpa [OrderedMap.keys] using hn⟩

/-- Three connections: one refused, and two under the same number, the first of which is
established while the second is pending at the end. -/
theorem descriptors_seen_off_three :
    let addr : AsyncConnectAddr :=
      { ip := "127.0.0.1", port := 80, timeout := 1000, successCB := some 0, failedCB := some 1 }
    ∃ s, system.run (new true)
        [.processConnect addr (.inProgress 3) 0 true, .processConnect addr (.refused 4) 1 true,
          .checkConnectStatus (some { writable := fun _ => true, soError := fun _ => some 0 }),
          .processConnect addr (.inProgress 3) 2 true, .checkTimeout fun _ => 5] = some s ∧
      (3 ∈ OrderedMap.keys s.mConnectingInfos ↔ 3 ∈ s.mFDSet.fds) ∧
      ∃ n, Custody.history FdEvent.act 3 s.causeAllFailed.ledger = Custody.rounds n := by
  intro addr
  obtain ⟨s, hrun⟩ : ∃ s, system.run (new true)
      [.processConnect addr (.inProgress 3) 0 true, .processConnect addr (.refused 4) 1 true,
        .checkConnectStatus (some { writable := fun _ => true, soError := fun _ => some 0 }),
        .processConnect addr (.inProgress 3) 2 true, .checkTimeout fun _ => 5] = some s := ⟨_, rfl⟩
  refine ⟨s, hrun, ?_, ?_⟩
  · refine (descriptors_seen_off hrun).2.2.2.1 ?_ 3
    simp [WorkCall.Grows]
  · exact (descriptors_seen_off hrun).2.2.2.2 3

/-- Without memory for the array of `mFDSet`, a descriptor waits that is not registered. -/
theorem not_all_registered :
    let addr : AsyncConnectAddr :=
      { ip := "127.0.0.1", port := 80, timeout := 1000, successCB := some 0, failedCB := some 1 }
    ∃ s, system.run (new false) [.processConnect addr (.inProgress 3) 0 false] = some s ∧
      3 ∈ OrderedMap.keys s.mConnectingInfos ∧ 3 ∉ s.mFDSet.fds := by
  refine ⟨_, rfl, ?_, ?_⟩
  · decide
  · decide

end ConnectorWorkInfo

end Brynet
