import Brynet.Net.Connector

/-!
# What becomes of a request to connect

The account of the requests of an `AsyncConnector`.  A request that was accepted
waits in the queue of the loop, or in `mConnectingInfos`, or in the copy of it
that `causeAllFailed` works through, or has had one of its callbacks called.
`checkConnectStatus` calls the callback while the entry is still in the map and
erases it afterwards, so the entry under that descriptor does not count
meanwhile; the account breaks if a callback closes its socket and asks for
another connection, and the kernel gives the new socket the same number.  Then
the new request takes the place of the old one, and is erased in its stead.

Stopping is at the end: the guard is held while the worker is joined, so the
worker must not ask for it.

For the first part `Accounts` is the invariant: all accepted requests are, once each,
in one of the places.  A request that the worker has in its hand (`Accounts hand`) is
counted apart, which lets a step be cut where the source calls back:

* `Accounts.callback`: what was in the hand has been called;
* `Accounts.processConnect`: it is called at once, or put into the map;
* `Accounts.callStatus`, `.takeOut`, `.fail`: an entry is taken into the hand.

That the places are disjoint is a permutation, compared by counting one number at a
time.  For the second part `WaitsForItself` is the invariant: who waits for the guard
is a callback, and nobody is joining.
-/

namespace Brynet

open Transition

/-! ## The account -/

namespace WorkPhase

/-- The closures the current turn of the loop has still to run. -/
def batch : WorkPhase → List ConnectProc
  | procs rest => rest
  | _ => []

/-- The requests that wait for their descriptor. -/
def connecting (infos : List (Sock × ℕ)) : WorkPhase → List ℕ
  | completing fd _ _ => (OrderedMap.erase fd infos).map Prod.snd
  | failing rest => rest.map Prod.snd ++ infos.map Prod.snd
  | _ => infos.map Prod.snd

/-- The worker has left its loop. -/
def left : WorkPhase → Bool
  | failing _ | ended => true
  | _ => false

/-- The callback on the stack was given the descriptor `fd`. -/
def handed (fd : Sock) : WorkPhase → Bool
  | completing done success _ => success && done = fd
  | _ => false

end WorkPhase

namespace Connector

variable {s s' : Connector} {sharedGuard : Bool} {hand : List ℕ} {id : ℕ} {fd : Sock}

/-- Where the requests are. -/
def places (s : Connector) : List ℕ :=
  (s.phase.batch ++ s.mAsyncProcs).filterMap ConnectProc.request? ++
    s.phase.connecting s.mConnectingInfos ++ s.called.map Prod.fst

/-- The closure of `stopWorkerThread` is the last one. -/
def StopsLast (s : Connector) : Prop :=
  (s.stop = .running ∧ s.mIsRun = true ∧ .stop ∉ s.phase.batch ++ s.mAsyncProcs) ∨
  (s.stop = .joining ∧ s.mIsRun = true ∧
    ∃ before, .stop ∉ before ∧ s.phase.batch ++ s.mAsyncProcs = before ++ [.stop]) ∨
  ((s.stop = .joining ∨ s.stop = .stopped ∧ s.phase = .ended) ∧ s.mIsRun = false ∧
    s.phase.batch ++ s.mAsyncProcs = [])

/-- The account of the requests, with those of `hand` taken out. -/
structure Accounts (hand : List ℕ) (s : Connector) : Prop where
  once : (hand ++ s.places).Perm (List.range s.accepted)
  keys_nodup : (OrderedMap.keys s.mConnectingInfos).Nodup
  owned : ∀ fd ∈ OrderedMap.keys s.mConnectingInfos,
    fd ∈ s.mOwned ∨ s.phase.handed fd = true
  owned_open : ∀ fd ∈ s.mOwned, fd ∈ s.mOpen
  found : ∀ fd success rest, s.phase = .completing fd success rest →
    fd ∈ OrderedMap.keys s.mConnectingInfos
  stopsLast : s.StopsLast
  cleared : s.phase.left = true → s.mConnectingInfos = [] ∧ s.mIsRun = false
  ended : s.phase = .ended → s.depth = 0

theorem accounts_start (used : List Sock) : (start used).Accounts [] where
  once := .refl _
  keys_nodup := List.nodup_nil
  owned := by simp [start, OrderedMap.keys]
  owned_open := by simp [start]
  found := by simp [start]
  stopsLast := .inl ⟨rfl, rfl, by simp [start, WorkPhase.batch]⟩
  cleared := by simp [start, WorkPhase.left]
  ended := by simp [start]

/-- A request is done with when its callback is called. -/
theorem Accounts.callback (h : s.Accounts (id :: hand)) (success : Bool)
    (hphase : s.phase ≠ .ended) : (s.callback id success).Accounts hand where
  once := by
    refine List.Perm.trans ?_ h.once
    -- The request moves from the hand to those called: the counts of all numbers stay.
    rw [List.perm_iff_count]
    intro other
    simp only [places, Connector.callback, List.map_append, List.map_cons,
      List.map_nil, List.count_append, List.count_cons, List.count_nil, List.cons_append]
    omega
  keys_nodup := h.keys_nodup
  owned := h.owned
  owned_open := h.owned_open
  found := h.found
  stopsLast := h.stopsLast
  cleared := h.cleared
  ended hended := absurd hended hphase

/-- Steps that move no request, and keep what the connector owns. -/
theorem Accounts.of_eq (h : s.Accounts hand) (hphase : s'.phase = s.phase)
    (hqueue : s'.mAsyncProcs = s.mAsyncProcs) (hrun : s'.mIsRun = s.mIsRun)
    (hinfos : s'.mConnectingInfos = s.mConnectingInfos) (hstop : s'.stop = s.stop)
    (haccepted : s'.accepted = s.accepted) (hcalled : s'.called = s.called)
    (howned : s'.mOwned = s.mOwned) (hopen : ∀ fd ∈ s.mOwned, fd ∈ s'.mOpen)
    (hended : s.phase = .ended → s'.depth = 0) : s'.Accounts hand where
  once := by
    simp only [places, hphase, hqueue, hinfos, haccepted, hcalled]
    exact h.once
  keys_nodup := hinfos ▸ h.keys_nodup
  owned := by
    rw [hinfos, howned, hphase]
    exact h.owned
  owned_open := howned ▸ hopen
  found := by
    rw [hphase, hinfos]
    exact h.found
  stopsLast := by
    simp only [StopsLast, hphase, hqueue, hrun, hstop]
    exact h.stopsLast
  cleared := by
    simp only [hphase, hinfos, hrun]
    exact h.cleared
  ended := hphase ▸ hended

/-- A descriptor the kernel gives out is not one of the connector's, apart from
that of the socket which the callback on the stack was given. -/
theorem Accounts.fresh (h : s.Accounts hand) (hfd : fd ∉ s.mOpen)
    (hhanded : s.phase.handed fd = false) : fd ∉ OrderedMap.keys s.mConnectingInfos := by
  intro hkey
  rcases h.owned fd hkey with howned | htrue
  · exact hfd (h.owned_open fd howned)
  · rw [hhanded] at htrue
    cases htrue

/-- A new entry of `mConnectingInfos` is counted once. -/
theorem count_connecting_assign {phase : WorkPhase} {infos : List (Sock × ℕ)} (id : ℕ)
    (hfd : fd ∉ OrderedMap.keys infos)
    (hphase : ∀ success rest, phase ≠ .completing fd success rest) (other : ℕ) :
    (phase.connecting (OrderedMap.assign fd id infos)).count other =
      (id :: phase.connecting infos).count other := by
  have hperm := OrderedMap.assign_perm id hfd
  have hcount := (hperm.map Prod.snd).count_eq other
  cases phase with
  | completing done success rest =>
      have hne : fd ≠ done := by
        rintro rfl
        exact hphase success rest rfl
      have herase := (hperm.filter fun entry => entry.1 ≠ done).map Prod.snd
      simp only [ne_eq, hne, not_false_eq_true, decide_true, List.filter_cons_of_pos,
        List.map_cons] at herase
      exact herase.count_eq other
  | failing rest =>
      simp only [WorkPhase.connecting, List.count_append, List.map_cons, List.count_cons]
        at hcount ⊢
      omega
  | turn | procs | status | timeouts | ended => exact hcount

theorem Accounts.processConnect (h : s.Accounts (id :: hand)) {r : ConnectResult}
    (hmay : s.mayReturn r = true) (hleft : s.phase.left = false)
    (hhanded : ∀ fd, r = .inProgress fd → s.phase.handed fd = false) :
    (s.processConnect id r).Accounts hand := by
  have hphase : s.phase ≠ .ended := by
    intro hended
    rw [hended] at hleft
    cases hleft
  cases r with
  | noSocket => exact h.callback false hphase
  | refused fd => exact h.callback false hphase
  | connected fd =>
      have hopened : Accounts (id :: hand) { s with mOpen := fd :: s.mOpen } :=
        h.of_eq rfl rfl rfl rfl rfl rfl rfl rfl
          (fun other hother => List.mem_cons_of_mem _ (h.owned_open other hother)) h.ended
      exact hopened.callback true hphase
  | inProgress fd =>
      have hnew : fd ∉ s.mOpen := by simpa [mayReturn, ConnectResult.fd?] using hmay
      have hfresh := h.fresh hnew (hhanded fd rfl)
      have hkeys := OrderedMap.keys_assign_perm id hfresh
      -- The descriptor is new, so the loop over the poll results is not at it.
      have hne : ∀ success rest, s.phase ≠ .completing fd success rest :=
        fun success rest hcompleting => hfresh (h.found fd success rest hcompleting)
      refine ⟨?_, ?_, ?_, ?_, ?_, h.stopsLast, ?_, fun hended => absurd hended hphase⟩
      · refine List.Perm.trans ?_ h.once
        rw [List.perm_iff_count]
        intro other
        have hcount := count_connecting_assign id hfresh hne other
        simp only [places, Connector.processConnect, fdsetAdd, List.count_append, List.count_cons,
          List.cons_append] at hcount ⊢
        omega
      · exact hkeys.nodup_iff.mpr (List.nodup_cons.mpr ⟨hfresh, h.keys_nodup⟩)
      · intro other hother
        rcases List.mem_cons.mp (hkeys.mem_iff.mp hother) with rfl | hold
        · exact .inl List.mem_cons_self
        · exact (h.owned other hold).imp_left (List.mem_cons_of_mem _)
      · intro other hother
        rcases List.mem_cons.mp hother with rfl | hold
        · exact List.mem_cons_self
        · exact List.mem_cons_of_mem _ (h.owned_open other hold)
      · intro done success rest hcompleting
        exact hkeys.mem_iff.mpr (List.mem_cons_of_mem _ (h.found done success rest hcompleting))
      · intro htrue
        exact absurd htrue (by simp [Connector.processConnect, fdsetAdd, hleft])

/-! ## The steps of the worker -/

theorem Accounts.nextTurn (h : s.Accounts []) (hphase : s.phase = .turn) :
    s.nextTurn.Accounts [] := by
  have honce := h.once
  have hstops := h.stopsLast
  simp only [places, StopsLast, hphase, WorkPhase.batch, List.nil_append] at honce hstops
  have howned : ∀ fd ∈ OrderedMap.keys s.mConnectingInfos, fd ∈ s.mOwned := by
    intro fd hfd
    have hcases := h.owned fd hfd
    rw [hphase] at hcases
    exact hcases.resolve_right (by simp [WorkPhase.handed])
  unfold Connector.nextTurn
  split
  next hrun =>
    refine ⟨?_, h.keys_nodup, fun fd hfd => .inl (howned fd hfd), h.owned_open, by simp, ?_,
      by simp [WorkPhase.left], by simp⟩
    · simpa [places, WorkPhase.batch, WorkPhase.connecting] using honce
    · simpa [StopsLast, WorkPhase.batch, hrun] using hstops
  next hrun =>
    simp only [hrun, Bool.false_eq_true, false_and, and_false, false_or, or_false,
      reduceCtorEq] at hstops
    refine ⟨?_, List.nodup_nil, by simp [OrderedMap.keys], h.owned_open, by simp, ?_,
      fun _ => ⟨rfl, by simpa using hrun⟩, by simp⟩
    · simpa [places, WorkPhase.batch, WorkPhase.connecting] using honce
    · simpa [StopsLast, WorkPhase.batch, hrun] using hstops

/-- The worker goes from `phase` to a place with the same closures and entries. -/
theorem Accounts.goto (h : s.Accounts hand) {phase : WorkPhase} (hbatch : s.phase.batch = [])
    (hbatch' : phase.batch = [])
    (hconnecting : phase.connecting s.mConnectingInfos =
      s.phase.connecting s.mConnectingInfos)
    (hhanded : ∀ fd, s.phase.handed fd = false)
    (hfound : ∀ fd success rest, phase = .completing fd success rest →
      fd ∈ OrderedMap.keys s.mConnectingInfos)
    (hleft : s.phase.left = false) (hleft' : phase.left = false) :
    Accounts hand { s with phase := phase } where
  once := by
    have honce := h.once
    simp only [places, hbatch, hbatch', hconnecting] at honce ⊢
    exact honce
  keys_nodup := h.keys_nodup
  owned fd hfd := by
    refine .inl ((h.owned fd hfd).resolve_right ?_)
    simp [hhanded fd]
  owned_open := h.owned_open
  found := hfound
  stopsLast := by
    have hstops := h.stopsLast
    have hended : s.phase ≠ .ended := by
      intro hended
      rw [hended] at hleft
      cases hleft
    simp only [StopsLast, hbatch, hbatch', hended, and_false, or_false] at hstops ⊢
    rcases hstops with hstops | hstops | ⟨hjoining, hrest⟩
    · exact .inl hstops
    · exact .inr (.inl hstops)
    · exact .inr (.inr ⟨.inl hjoining, hrest⟩)
  cleared hcleared := by
    rw [hleft'] at hcleared
    cases hcleared
  ended hended := by
    simp only at hended
    rw [hended] at hleft'
    cases hleft'

theorem Accounts.runProc (h : s.Accounts []) {proc : ConnectProc} {rest : List ConnectProc}
    (hphase : s.phase = .procs (proc :: rest)) {r : ConnectResult} (hmay : s.mayReturn r = true) :
    ({ s with phase := .procs rest }.runProc r proc).Accounts [] := by
  have honce := h.once
  have hstops := h.stopsLast
  have howned : ∀ fd ∈ OrderedMap.keys s.mConnectingInfos, fd ∈ s.mOwned := by
    intro fd hfd
    have hcases := h.owned fd hfd
    rw [hphase] at hcases
    exact hcases.resolve_right (by simp [WorkPhase.handed])
  simp only [places, StopsLast, hphase, WorkPhase.batch, WorkPhase.connecting,
    List.cons_append, reduceCtorEq, and_false, or_false] at honce hstops
  cases proc with
  -- The request is in the hand while its closure runs.
  | request id =>
      have hpopped : Accounts [id] { s with phase := .procs rest } := by
        refine ⟨?_, h.keys_nodup, fun fd hfd => .inl (howned fd hfd), h.owned_open, by simp, ?_,
          by simp [WorkPhase.left], by simp⟩
        · simpa [places, WorkPhase.batch, WorkPhase.connecting, ConnectProc.request?] using honce
        · rcases hstops with ⟨hrunning, hrun, hnot⟩ | ⟨hjoining, hrun, before, hnot, hbefore⟩
          · exact .inl ⟨hrunning, hrun, fun hmem => hnot (List.mem_cons_of_mem _ hmem)⟩
          · refine .inr (.inl ⟨hjoining, hrun, ?_⟩)
            cases before with
            | nil => simp at hbefore
            | cons first before =>
                simp only [List.cons_append, List.cons.injEq] at hbefore
                exact ⟨before, fun hmem => hnot (List.mem_cons_of_mem _ hmem), hbefore.2⟩
      exact hpopped.processConnect hmay rfl fun _ _ => rfl
  | stop =>
      refine ⟨?_, h.keys_nodup, fun fd hfd => .inl (howned fd hfd), h.owned_open, by
        simp [Connector.runProc], ?_, by simp [Connector.runProc, WorkPhase.left], by
        simp [Connector.runProc]⟩
      · simpa [places, Connector.runProc, WorkPhase.batch, WorkPhase.connecting,
          ConnectProc.request?, List.filterMap_cons] using honce
      · -- Behind the closure of `stopWorkerThread` there is none.
        rcases hstops with ⟨-, -, hnot⟩ | ⟨hjoining, -, before, hnot, hbefore⟩
        · simp at hnot
        · cases before with
          | nil =>
              simp only [List.nil_append, List.cons.injEq, true_and] at hbefore
              exact .inr (.inr ⟨.inl hjoining, rfl, hbefore⟩)
          | cons first before =>
              simp only [List.cons_append, List.cons.injEq] at hbefore
              simp [← hbefore.1] at hnot

theorem Accounts.fdsetRemove (h : s.Accounts hand) (fd : Sock) :
    (s.fdsetRemove fd).Accounts hand :=
  h.of_eq rfl rfl rfl rfl rfl rfl rfl rfl h.owned_open h.ended

/-- Closing a descriptor that no entry needs. -/
theorem Accounts.socketClose (h : s.Accounts hand)
    (hfd : fd ∈ OrderedMap.keys s.mConnectingInfos → s.phase.handed fd = true) :
    (s.socketClose fd).Accounts hand where
  once := h.once
  keys_nodup := h.keys_nodup
  owned other hother := by
    by_cases heq : other = fd
    · exact .inr (heq ▸ hfd (heq ▸ hother))
    · refine (h.owned other hother).imp_left fun howned => ?_
      simpa [Connector.socketClose, heq] using howned
  owned_open other hother := by
    simp only [Connector.socketClose, List.mem_filter, decide_eq_true_eq] at hother ⊢
    exact ⟨h.owned_open other hother.1, hother.2⟩
  found := h.found
  stopsLast := h.stopsLast
  cleared := h.cleared
  ended := h.ended

/-- Only in a callback of `checkConnectStatus` is a socket given away. -/
theorem Accounts.keys_owned (h : s.Accounts hand) (hhanded : ∀ fd, s.phase.handed fd = false) :
    ∀ fd ∈ OrderedMap.keys s.mConnectingInfos, fd ∈ s.mOwned := by
  intro fd hfd
  refine (h.owned fd hfd).resolve_right ?_
  simp [hhanded fd]

theorem Accounts.callStatus (h : s.Accounts []) {success : Bool} {rest : List (Sock × Bool)}
    {ready : List (Sock × Bool)} (hphase : s.phase = .status ready)
    (hfind : OrderedMap.find fd s.mConnectingInfos = some id) :
    (s.callStatus fd success rest id).Accounts [] := by
  have hperm := OrderedMap.perm_erase_of_find h.keys_nodup hfind
  have hkey : fd ∈ OrderedMap.keys s.mConnectingInfos :=
    List.mem_map_of_mem (OrderedMap.mem_of_find hfind)
  have howned := h.keys_owned (by simp [hphase, WorkPhase.handed])
  have honce := h.once
  have hstops := h.stopsLast
  simp only [places, StopsLast, hphase, WorkPhase.batch, WorkPhase.connecting] at honce hstops
  -- From here on the entry does not count, and its request is in the hand.
  have hhand : Accounts [id] { s with
      phase := .completing fd success rest
      mOwned := if success then s.mOwned.filter fun other => other ≠ fd else s.mOwned } := by
    refine ⟨?_, h.keys_nodup, ?_, ?_, ?_, ?_, by simp [WorkPhase.left], by simp⟩
    · refine List.Perm.trans ?_ honce
      rw [List.perm_iff_count]
      intro other
      have hcount := (hperm.map Prod.snd).count_eq other
      simp only [places, WorkPhase.batch, WorkPhase.connecting, List.count_append,
        List.count_cons, List.count_nil, List.map_cons] at hcount ⊢
      omega
    · intro other hother
      by_cases heq : success = true ∧ other = fd
      · exact .inr (by simp [WorkPhase.handed, heq])
      · left
        have hmem := howned other hother
        cases success <;> simp_all
    · intro other hother
      apply h.owned_open
      cases success with
      | false => exact hother
      | true => exact (List.mem_filter.mp hother).1
    · rintro done _ _ hcompleting
      cases hcompleting
      exact hkey
    · simpa [StopsLast, WorkPhase.batch] using hstops
  exact hhand.callback success (by simp)

theorem Accounts.status (h : s.Accounts []) {success : Bool} {rest : List (Sock × Bool)}
    (hphase : s.phase = .status ((fd, success) :: rest)) :
    (s.status fd success rest).Accounts [] := by
  have hremoved := h.fdsetRemove fd
  have hphase' : (s.fdsetRemove fd).phase = .status ((fd, success) :: rest) := hphase
  unfold Connector.status
  split
  next =>
    refine hremoved.goto ?_ rfl ?_ ?_ (by simp) ?_ rfl
    all_goals simp [hphase', WorkPhase.batch, WorkPhase.connecting, WorkPhase.handed,
      WorkPhase.left]
  next id hfind => exact hremoved.callStatus hphase' hfind

/-- An entry is gone that was not counted any more. -/
theorem Accounts.complete (h : s.Accounts []) {success : Bool} {rest : List (Sock × Bool)}
    (hphase : s.phase = .completing fd success rest) :
    (s.complete fd success rest).Accounts [] := by
  have honce := h.once
  have hstops := h.stopsLast
  simp only [places, StopsLast, hphase, WorkPhase.batch, WorkPhase.connecting] at honce hstops
  have hkeys := OrderedMap.keys_erase fd s.mConnectingInfos
  -- The entry of the handed descriptor is still the old one, as none was assigned meanwhile.
  have herased : Accounts [] { s.eraseInfo fd with phase := .status rest } := by
    refine ⟨honce, ?_, ?_, h.owned_open, by simp, ?_, by simp [WorkPhase.left], by simp⟩
    · change (OrderedMap.keys (OrderedMap.erase fd s.mConnectingInfos)).Nodup
      rw [hkeys]
      exact h.keys_nodup.filter _
    · intro other hother
      change other ∈ OrderedMap.keys (OrderedMap.erase fd s.mConnectingInfos) at hother
      rw [hkeys, List.mem_filter, decide_eq_true_eq] at hother
      refine .inl ((h.owned other hother.1).resolve_right ?_)
      simp [hphase, WorkPhase.handed, hother.2.symm]
    · simpa [StopsLast, WorkPhase.batch, eraseInfo] using hstops
  unfold Connector.complete
  split
  · exact herased
  · refine herased.socketClose fun hkey => ?_
    change fd ∈ OrderedMap.keys (OrderedMap.erase fd s.mConnectingInfos) at hkey
    simp [hkeys] at hkey

/-- `checkTimeout` takes a request out of the map. -/
theorem Accounts.takeOut (h : s.Accounts []) {it : Option Sock} (hphase : s.phase = .timeouts it)
    (hfind : OrderedMap.find fd s.mConnectingInfos = some id) :
    (s.eraseInfo fd).Accounts [id] := by
  have hperm := OrderedMap.perm_erase_of_find h.keys_nodup hfind
  have hkeys := OrderedMap.keys_erase fd s.mConnectingInfos
  have honce := h.once
  refine ⟨?_, ?_, ?_, h.owned_open, ?_, h.stopsLast, ?_, h.ended⟩
  · refine List.Perm.trans ?_ honce
    rw [List.perm_iff_count]
    intro other
    have hcount := (hperm.map Prod.snd).count_eq other
    simp only [places, eraseInfo, hphase, WorkPhase.batch, WorkPhase.connecting,
      List.count_append, List.count_cons, List.count_nil, List.map_cons] at hcount ⊢
    omega
  · change (OrderedMap.keys (OrderedMap.erase fd s.mConnectingInfos)).Nodup
    rw [hkeys]
    exact h.keys_nodup.filter _
  · intro other hother
    change other ∈ OrderedMap.keys (OrderedMap.erase fd s.mConnectingInfos) at hother
    rw [hkeys, List.mem_filter] at hother
    exact h.owned other hother.1
  · intro done success rest hcompleting
    rw [eraseInfo, hphase] at hcompleting
    cases hcompleting
  · intro hleft
    rw [eraseInfo, hphase] at hleft
    cases hleft

theorem Accounts.timeout (h : s.Accounts []) (hphase : s.phase = .timeouts (some fd))
    (hfind : OrderedMap.find fd s.mConnectingInfos = some id) (expired : Bool) :
    (s.timeout fd id expired).Accounts [] := by
  unfold Connector.timeout
  split
  next =>
    have hremoved := h.fdsetRemove fd
    have htaken := hremoved.takeOut hphase hfind
    have hclosed : Accounts [id] (((s.fdsetRemove fd).eraseInfo fd).socketClose fd) := by
      refine htaken.socketClose fun hkey => ?_
      change fd ∈ OrderedMap.keys (OrderedMap.erase fd s.mConnectingInfos) at hkey
      rw [OrderedMap.keys_erase] at hkey
      simp at hkey
    have hphase' : (((s.fdsetRemove fd).eraseInfo fd).socketClose fd).phase =
        .timeouts (some fd) := hphase
    refine Accounts.callback ?_ false (by simp)
    refine hclosed.goto ?_ rfl ?_ ?_ (by simp) ?_ rfl
    all_goals simp [hphase', WorkPhase.batch, WorkPhase.connecting, WorkPhase.handed,
      WorkPhase.left]
  next =>
    refine h.goto ?_ rfl ?_ ?_ (by simp) ?_ rfl
    all_goals simp [hphase, WorkPhase.batch, WorkPhase.connecting, WorkPhase.handed,
      WorkPhase.left]

theorem Accounts.fail (h : s.Accounts []) {rest : List (Sock × ℕ)}
    (hphase : s.phase = .failing ((fd, id) :: rest)) : (s.fail fd id rest).Accounts [] := by
  -- `mConnectingInfos` is empty; the copy holds what is left.
  have hcleared := h.cleared (by simp [hphase, WorkPhase.left])
  have hclosed : Accounts [] ((s.fdsetRemove fd).socketClose fd) := by
    refine (h.fdsetRemove fd).socketClose fun hkey => ?_
    change fd ∈ OrderedMap.keys s.mConnectingInfos at hkey
    simp [hcleared.1, OrderedMap.keys] at hkey
  have honce := hclosed.once
  have hstops := hclosed.stopsLast
  have hphase' : ((s.fdsetRemove fd).socketClose fd).phase = .failing ((fd, id) :: rest) := hphase
  refine Accounts.callback ?_ false (by simp)
  refine ⟨?_, hclosed.keys_nodup, ?_, hclosed.owned_open, by simp, ?_, fun _ => hcleared, by simp⟩
  · refine List.Perm.trans ?_ honce
    rw [List.perm_iff_count]
    intro other
    simp only [places, hphase', WorkPhase.batch, WorkPhase.connecting, List.count_append,
      List.count_cons, List.count_nil, List.map_cons]
    omega
  · intro other hother
    exact .inl (hclosed.keys_owned (by simp [hphase', WorkPhase.handed]) other hother)
  · simpa [StopsLast, hphase', WorkPhase.batch] using hstops

theorem Accounts.failed (h : s.Accounts []) (hphase : s.phase = .failing [])
    (hdepth : s.depth = 0) : Accounts [] { s with phase := .ended } := by
  have hcleared := h.cleared (by simp [hphase, WorkPhase.left])
  have honce := h.once
  have hstops := h.stopsLast
  simp only [places, StopsLast, hphase, WorkPhase.batch, WorkPhase.connecting, List.map_nil,
    List.nil_append, reduceCtorEq, and_false, or_false] at honce hstops
  refine ⟨honce, h.keys_nodup, ?_, h.owned_open, by simp, ?_, fun _ => hcleared, fun _ => hdepth⟩
  · intro other hother
    exact .inl (h.keys_owned (by simp [hphase, WorkPhase.handed]) other hother)
  · rcases hstops with hstops | hstops | ⟨hjoining, hrest⟩
    · exact .inl hstops
    · exact .inr (.inl hstops)
    · exact .inr (.inr ⟨.inl hjoining, hrest⟩)

theorem Accounts.workNext (h : s.Accounts []) (hwork : s.atWork = true) {action : ConnectorAction}
    (hnext : s.workNext action = some s') : s'.Accounts [] := by
  have hdepth : s.depth = 0 := by
    simp only [atWork, Bool.and_eq_true, decide_eq_true_eq] at hwork
    exact hwork.1
  unfold Connector.workNext at hnext
  split at hnext
  -- One case for each arm of `workNext`, which are the phases of a turn.
  next hphase =>
    cases hnext
    exact h.nextTurn hphase
  next proc rest r hphase =>
    split at hnext
    next hmay =>
      cases hnext
      exact h.runProc hphase hmay
    next => cases hnext
  next ready hphase =>
    split at hnext
    next =>
      cases hnext
      refine h.goto ?_ rfl ?_ ?_ (by simp) ?_ rfl
      all_goals simp [hphase, WorkPhase.batch, WorkPhase.connecting, WorkPhase.handed,
        WorkPhase.left]
    next => cases hnext
  next fd success rest hphase =>
    cases hnext
    exact h.status hphase
  next hphase =>
    cases hnext
    refine h.goto ?_ rfl ?_ ?_ (by simp) ?_ rfl
    all_goals simp [hphase, WorkPhase.batch, WorkPhase.connecting, WorkPhase.handed,
      WorkPhase.left]
  next fd success rest hphase =>
    cases hnext
    exact h.complete hphase
  next fd expired hphase =>
    obtain ⟨id, hfind, rfl⟩ := Option.map_eq_some_iff.mp hnext
    exact h.timeout hphase hfind expired
  next hphase =>
    cases hnext
    refine h.goto ?_ rfl ?_ ?_ (by simp) ?_ rfl
    all_goals simp [hphase, WorkPhase.batch, WorkPhase.connecting, WorkPhase.handed,
      WorkPhase.left]
  next fd id rest hphase =>
    cases hnext
    exact h.fail hphase
  next hphase =>
    cases hnext
    exact h.failed hphase hdepth
  next => cases hnext

/-! ## Requests -/

/-- Another thread asks for a connection. -/
theorem Accounts.asyncConnect (h : s.Accounts []) (hrunning : s.stop = .running) :
    Accounts [] { s with
      mAsyncProcs := s.mAsyncProcs ++ [.request s.accepted], accepted := s.accepted + 1 } := by
  have hstops := h.stopsLast
  simp only [StopsLast, hrunning, reduceCtorEq, false_and, or_false, true_and] at hstops
  refine ⟨?_, h.keys_nodup, h.owned, h.owned_open, h.found, ?_, h.cleared, h.ended⟩
  · have honce := h.once.append_right [s.accepted]
    rw [← List.range_succ] at honce
    refine List.Perm.trans ?_ honce
    rw [List.perm_iff_count]
    intro other
    simp only [places, ← List.append_assoc, List.filterMap_append, List.filterMap_cons,
      ConnectProc.request?, List.filterMap_nil, List.count_append, List.count_nil]
    omega
  · refine .inl ⟨hrunning, hstops.1, ?_⟩
    simpa using hstops.2

theorem Accounts.stopWorkerThread (h : s.Accounts []) (hrunning : s.stop = .running) :
    Accounts [] { s with stop := .joining, mAsyncProcs := s.mAsyncProcs ++ [.stop] } := by
  have hstops := h.stopsLast
  simp only [StopsLast, hrunning, reduceCtorEq, false_and, or_false, true_and] at hstops
  refine ⟨?_, h.keys_nodup, h.owned, h.owned_open, h.found, ?_, h.cleared, h.ended⟩
  · have honce := h.once
    simpa [places, ConnectProc.request?, List.filterMap_cons] using honce
  · refine .inr (.inl ⟨rfl, hstops.1, s.phase.batch ++ s.mAsyncProcs, hstops.2, ?_⟩)
    simp

theorem Accounts.join (h : s.Accounts []) (hjoining : s.stop = .joining)
    (hended : s.phase = .ended) : Accounts [] { s with stop := .stopped } := by
  have hrun := (h.cleared (by simp [hended, WorkPhase.left])).2
  have hstops := h.stopsLast
  simp only [StopsLast, hjoining, hrun, reduceCtorEq, Bool.false_eq_true, false_and, and_false,
    false_or, true_and, or_false] at hstops
  exact ⟨h.once, h.keys_nodup, h.owned, h.owned_open, h.found,
    .inr (.inr ⟨.inr ⟨rfl, hended⟩, hrun, hstops⟩), h.cleared, h.ended⟩

/-- A callback asks for a connection, and is not given the descriptor of the
socket it has been handed. -/
theorem Accounts.callbackConnect (h : s.Accounts []) (hdepth : 0 < s.depth) {r : ConnectResult}
    (hmay : s.mayReturn r = true)
    (hhanded : ∀ fd, r = .inProgress fd → s.phase.handed fd = false) :
    (s.callbackConnect sharedGuard r).Accounts [] := by
  unfold Connector.callbackConnect
  split
  next hlockable =>
    have hjoining : s.stop ≠ .joining := by
      simp only [lockable, Bool.and_eq_true, decide_eq_true_eq] at hlockable
      exact hlockable.1
    -- After the last turn the guard is with the stopping thread.
    have hleft : s.phase.left = false := by
      by_contra hleft
      have hrun := (h.cleared (by simpa using hleft)).2
      rcases h.stopsLast with ⟨-, htrue, -⟩ | ⟨-, htrue, -⟩ | ⟨hstop | ⟨-, hended⟩, -, -⟩
      · simp [hrun] at htrue
      · simp [hrun] at htrue
      · exact hjoining hstop
      · exact absurd (h.ended hended) (by omega)
    -- The new request is accepted and in the hand at once.
    have hhand : Accounts [s.accepted] { s with accepted := s.accepted + 1 } := by
      refine ⟨?_, h.keys_nodup, h.owned, h.owned_open, h.found, h.stopsLast, h.cleared, h.ended⟩
      rw [List.range_succ]
      exact List.perm_append_comm.trans (h.once.append_right [s.accepted])
    exact hhand.processConnect hmay hleft hhanded
  next => exact h.of_eq rfl rfl rfl rfl rfl rfl rfl rfl h.owned_open h.ended

/-- Whether no callback gets back, for a request of its own, the descriptor of
the socket it was given by `checkConnectStatus`. -/
def keepsDescriptor (s : Connector) : ConnectorAction → Bool
  | .callbackConnect (.inProgress fd) => !s.phase.handed fd
  | _ => true

theorem Accounts.next (h : s.Accounts []) {action : ConnectorAction}
    (hkeeps : s.keepsDescriptor action = true)
    (hnext : s.next sharedGuard action = some s') : s'.Accounts [] := by
  cases action with
  -- Other threads: they append to the queue, or wait for the worker to end.
  | asyncConnect =>
      simp only [Connector.next, Option.ite_none_right_eq_some, Option.some.injEq] at hnext
      obtain ⟨hcond, rfl⟩ := hnext
      exact h.asyncConnect hcond.1
  | stopWorkerThread =>
      simp only [Connector.next, Option.ite_none_right_eq_some, Option.some.injEq] at hnext
      obtain ⟨hcond, rfl⟩ := hnext
      exact h.stopWorkerThread hcond.1
  | join =>
      simp only [Connector.next, Option.ite_none_right_eq_some, Option.some.injEq] at hnext
      obtain ⟨hcond, rfl⟩ := hnext
      exact h.join hcond.1 hcond.2
  -- The kernel and the user's sockets: only a descriptor without an entry is closed.
  | openFd fd =>
      simp only [Connector.next, Option.ite_none_right_eq_some, Option.some.injEq] at hnext
      obtain ⟨-, rfl⟩ := hnext
      exact h.of_eq rfl rfl rfl rfl rfl rfl rfl rfl
        (fun other hother => List.mem_cons_of_mem _ (h.owned_open other hother)) h.ended
  | closeFd fd =>
      simp only [Connector.next, Option.ite_none_right_eq_some, Option.some.injEq] at hnext
      obtain ⟨hcond, rfl⟩ := hnext
      exact h.socketClose fun hkey => (h.owned fd hkey).resolve_left hcond
  -- The condition of the run is used here, and only here.
  | callbackConnect r =>
      simp only [Connector.next, Option.ite_none_right_eq_some, Option.some.injEq] at hnext
      obtain ⟨⟨hdepth, -, hmay⟩, rfl⟩ := hnext
      refine h.callbackConnect hdepth hmay fun fd hr => ?_
      subst hr
      simpa [keepsDescriptor] using hkeeps
  | callbackReturn =>
      simp only [Connector.next, Option.ite_none_right_eq_some, Option.some.injEq] at hnext
      obtain ⟨-, rfl⟩ := hnext
      refine h.of_eq rfl rfl rfl rfl rfl rfl rfl rfl h.owned_open fun hended => ?_
      have hdepth := h.ended hended
      simp only
      omega
  | turn | runProc | poll | status | complete | timeout | fail =>
      simp only [Connector.next, Option.ite_none_right_eq_some] at hnext
      exact h.workNext hnext.1 hnext.2

theorem accounts_of_reachable
    (h : ((system sharedGuard).restrict keepsDescriptor).Reachable s) : s.Accounts [] := by
  refine h.invariant ?_ ?_
  · rintro s ⟨used, rfl⟩
    exact accounts_start used
  · intro s action s' _ haccounts hnext
    obtain ⟨hkeeps, hnext⟩ := System.next_of_restrict hnext
    exact haccounts.next hkeeps hnext

/-- When the worker has ended, all the requests are among those called. -/
theorem Accounts.called_perm (h : s.Accounts []) (hended : s.phase = .ended) :
    (s.called.map Prod.fst).Perm (List.range s.accepted) := by
  have hcleared := h.cleared (by simp [hended, WorkPhase.left])
  -- The queue is empty, and so is the map, so nothing but the called ones is left.
  have hqueue : s.phase.batch ++ s.mAsyncProcs = [] := by
    rcases h.stopsLast with ⟨-, htrue, -⟩ | ⟨-, htrue, -⟩ | ⟨-, -, hempty⟩
    · simp [hcleared.2] at htrue
    · simp [hcleared.2] at htrue
    · exact hempty
  have honce := h.once
  rw [places, hqueue] at honce
  simpa [hended, WorkPhase.connecting, hcleared.1] using honce

/-- **Exactly-once completion.**  In every run of the worker, for callbacks that
close what they like and ask for connections of their own, and none of whose
requests gets the descriptor of the socket that the callback was given: no
request has two callbacks called, and when the worker has ended every accepted
request has had exactly one. -/
theorem connect_exactly_once (sharedGuard : Bool)
    (h : ((system sharedGuard).restrict keepsDescriptor).Reachable s) :
    (s.called.map Prod.fst).Nodup ∧
    (s.phase = .ended → ∀ id < s.accepted,
      ∃ success, s.called.filter (fun call => call.1 = id) = [(id, success)]) := by
  have haccounts := accounts_of_reachable h
  have hnodup : (s.called.map Prod.fst).Nodup := by
    have hplaces := haccounts.once.nodup_iff.mpr List.nodup_range
    exact (List.nodup_append.mp hplaces).2.1.of_append_right
  refine ⟨hnodup, fun hended id hid => ?_⟩
  have hmem : id ∈ s.called.map Prod.fst :=
    (haccounts.called_perm hended).mem_iff.mpr (List.mem_range.mpr hid)
  exact OrderedMap.exists_filter_eq hnodup hmem

/-- Two requests, one refused at once and one that times out, and then the stop. -/
def orderlyRun : List ConnectorAction :=
  [.asyncConnect, .asyncConnect, .turn, .runProc (.refused 3), .callbackReturn,
    .runProc (.inProgress 3), .poll [], .status, .timeout true, .callbackReturn, .timeout true,
    .stopWorkerThread, .turn, .runProc .noSocket, .poll [], .status, .timeout true, .turn, .fail]

theorem connect_exactly_once_orderly :
    ∃ s, ((system false).restrict keepsDescriptor).run (start []) orderlyRun = some s ∧
      s.phase = .ended ∧ s.accepted = 2 ∧
      ∀ id < 2, ∃ success, s.called.filter (fun call => call.1 = id) = [(id, success)] := by
  have hall (s : Connector)
      (hrun : ((system false).restrict keepsDescriptor).run (start []) orderlyRun = some s)
      (hended : s.phase = .ended) := by
    have hinit : ((system false).restrict keepsDescriptor).init (start []) := ⟨[], rfl⟩
    exact (connect_exactly_once false (System.reachable_of_run hinit hrun)).2 hended
  exact ⟨_, rfl, rfl, rfl, hall _ rfl rfl⟩

/-- The success callback closes its socket and connects again, and the kernel
gives the new socket the number of the old one. -/
def reusedRun : List ConnectorAction :=
  [.asyncConnect, .turn, .runProc (.inProgress 3), .poll [(3, true)], .status,
    .closeFd 3, .callbackConnect (.inProgress 3), .callbackReturn, .complete, .status,
    .timeout false, .stopWorkerThread, .turn, .runProc .noSocket, .poll [], .status,
    .timeout false, .turn, .fail]

/-- The second request has had no callback when the worker has ended. -/
theorem not_connect_exactly_once_reused :
    ¬ ∀ s, (system false).Reachable s → s.phase = .ended → ∀ id < s.accepted,
      ∃ success, s.called.filter (fun call => call.1 = id) = [(id, success)] := by
  intro hall
  have hinit : (system false).init (start []) := ⟨[], rfl⟩
  have hlost (s : Connector) (hrun : (system false).run (start []) reusedRun = some s)
      (hended : s.phase = .ended) (haccepted : 1 < s.accepted)
      (hcalled : s.called = [(0, true)]) : False := by
    obtain ⟨success, hsuccess⟩ := hall s (System.reachable_of_run hinit hrun) hended 1 haccepted
    simp [hcalled] at hsuccess
  exact hlost _ rfl rfl (by decide) rfl

/-! ## Stopping -/

/-- The stopping thread holds the guard and waits for the worker, and the worker
waits for the guard. -/
def Deadlocked (s : Connector) : Prop := s.stop = .joining ∧ s.waiting = true

/-- Whether no callback calls `asyncConnect` while the worker is being joined. -/
def asksBeforeStop (s : Connector) : ConnectorAction → Bool
  | .callbackConnect _ => s.stop ≠ .joining
  | _ => true

/-- The worker waits only for itself. -/
def WaitsForItself (s : Connector) : Prop := s.waiting = true → s.stop ≠ .joining ∧ 1 < s.depth

theorem waiting_processConnect (s : Connector) (id : ℕ) (r : ConnectResult) :
    (s.processConnect id r).waiting = s.waiting := by
  cases r <;> rfl

theorem waiting_runProc (s : Connector) (r : ConnectResult) (proc : ConnectProc) :
    (s.runProc r proc).waiting = s.waiting := by
  cases proc with
  | request id => exact s.waiting_processConnect id r
  | stop => rfl

theorem waiting_status (s : Connector) (fd : Sock) (success : Bool) (rest : List (Sock × Bool)) :
    (s.status fd success rest).waiting = s.waiting := by
  unfold Connector.status
  split <;> rfl

theorem waiting_complete (s : Connector) (fd : Sock) (success : Bool) (rest : List (Sock × Bool)) :
    (s.complete fd success rest).waiting = s.waiting := by
  cases success <;> rfl

theorem waiting_timeout (s : Connector) (fd : Sock) (id : ℕ) (expired : Bool) :
    (s.timeout fd id expired).waiting = s.waiting := by
  cases expired <;> rfl

/-- The code of the worker never waits for the guard. -/
theorem waiting_workNext {action : ConnectorAction} (hnext : s.workNext action = some s') :
    s'.waiting = s.waiting := by
  unfold Connector.workNext at hnext
  split at hnext
  -- None of the arms touches `waiting`.
  next =>
    cases hnext
    unfold Connector.nextTurn
    split <;> rfl
  next proc rest r _ =>
    simp only [Option.ite_none_right_eq_some, Option.some.injEq] at hnext
    obtain ⟨-, rfl⟩ := hnext
    exact waiting_runProc _ r proc
  next =>
    simp only [Option.ite_none_right_eq_some, Option.some.injEq] at hnext
    obtain ⟨-, rfl⟩ := hnext
    rfl
  next fd success rest _ =>
    cases hnext
    exact s.waiting_status fd success rest
  next =>
    cases hnext
    rfl
  next fd success rest _ =>
    cases hnext
    exact s.waiting_complete fd success rest
  next fd expired _ =>
    obtain ⟨id, -, rfl⟩ := Option.map_eq_some_iff.mp hnext
    exact s.waiting_timeout fd id expired
  next =>
    cases hnext
    rfl
  next =>
    cases hnext
    rfl
  next =>
    cases hnext
    rfl
  next => cases hnext

theorem WaitsForItself.next (h : s.WaitsForItself) {action : ConnectorAction}
    (hasks : s.asksBeforeStop action = true)
    (hnext : s.next sharedGuard action = some s') : s'.WaitsForItself := by
  cases action with
  | asyncConnect | openFd | closeFd =>
      simp only [Connector.next, Option.ite_none_right_eq_some, Option.some.injEq] at hnext
      obtain ⟨-, rfl⟩ := hnext
      exact h
  | stopWorkerThread =>
      -- Whoever waits has the guard, so the stopping thread cannot get it.
      simp only [Connector.next, Option.ite_none_right_eq_some, Option.some.injEq] at hnext
      obtain ⟨⟨-, hdepth⟩, rfl⟩ := hnext
      intro hwaiting
      exact absurd (h hwaiting).2 (by omega)
  | join =>
      simp only [Connector.next, Option.ite_none_right_eq_some, Option.some.injEq] at hnext
      obtain ⟨-, rfl⟩ := hnext
      intro hwaiting
      exact ⟨by simp, (h hwaiting).2⟩
  -- The callback gets the guard, or waits for it while nobody is stopping.
  | callbackConnect r =>
      simp only [Connector.next, Option.ite_none_right_eq_some, Option.some.injEq] at hnext
      obtain ⟨⟨-, hno, -⟩, rfl⟩ := hnext
      have hjoining : s.stop ≠ .joining := by simpa [asksBeforeStop] using hasks
      cases hlockable : s.lockable sharedGuard with
      | true =>
          simp only [WaitsForItself, Connector.callbackConnect, hlockable, if_true]
          intro hwaiting
          rw [waiting_processConnect _ _ r] at hwaiting
          simp only at hwaiting
          simp [hwaiting] at hno
      | false =>
          simp only [WaitsForItself, Connector.callbackConnect, hlockable, Bool.false_eq_true,
            if_false]
          intro _
          simp only [lockable, hjoining, ne_eq, not_false_eq_true, decide_true, Bool.true_and,
            Bool.or_eq_false_iff, decide_eq_false_iff_not, not_le] at hlockable
          exact ⟨hjoining, hlockable.2⟩
  | callbackReturn =>
      simp only [Connector.next, Option.ite_none_right_eq_some, Option.some.injEq] at hnext
      obtain ⟨⟨-, hno⟩, rfl⟩ := hnext
      intro hwaiting
      simp only at hwaiting
      simp [hwaiting] at hno
  | turn | runProc | poll | status | complete | timeout | fail =>
      simp only [Connector.next, Option.ite_none_right_eq_some] at hnext
      intro hwaiting
      rw [waiting_workNext hnext.2] at hwaiting
      simp [atWork, hwaiting] at hnext

/-- **Stopping the connector.**  In every run in which no callback calls
`asyncConnect` between the moment `stopWorkerThread` takes the guard and the end
of the worker, stopping does not deadlock. -/
theorem connector_stop_no_deadlock (sharedGuard : Bool)
    (h : ((system sharedGuard).restrict asksBeforeStop).Reachable s) : ¬ s.Deadlocked := by
  have hwaits : s.WaitsForItself := by
    refine h.invariant ?_ ?_
    · rintro s ⟨used, rfl⟩ hwaiting
      cases hwaiting
    · intro s action s' _ hwaits hnext
      obtain ⟨hasks, hnext⟩ := System.next_of_restrict hnext
      exact hwaits.next hasks hnext
  rintro ⟨hjoining, hwaiting⟩
  exact (hwaits hwaiting).1 hjoining

/-- A request that is refused is made again by its callback, and then the
connector is stopped. -/
theorem connector_stop_no_deadlock_retry :
    ∃ s, ((system false).restrict asksBeforeStop).run (start [])
        [.asyncConnect, .turn, .runProc (.refused 3), .callbackConnect (.inProgress 3),
          .callbackReturn, .stopWorkerThread] = some s ∧
      s.stop = .joining ∧ ¬ s.Deadlocked := by
  have hno (s : Connector) (hrun : ((system false).restrict asksBeforeStop).run (start [])
      [.asyncConnect, .turn, .runProc (.refused 3), .callbackConnect (.inProgress 3),
        .callbackReturn, .stopWorkerThread] = some s) : ¬ s.Deadlocked := by
    have hinit : ((system false).restrict asksBeforeStop).init (start []) := ⟨[], rfl⟩
    exact connector_stop_no_deadlock false (System.reachable_of_run hinit hrun)
  exact ⟨_, rfl, rfl, hno _ rfl⟩

/-- The same retry, after `stopWorkerThread` has taken the guard. -/
theorem not_connector_stop_no_deadlock_late :
    ¬ ∀ s, (system false).Reachable s → ¬ s.Deadlocked := by
  intro hall
  have hinit : (system false).init (start []) := ⟨[], rfl⟩
  have hlate (s : Connector) (hrun : (system false).run (start [])
      [.asyncConnect, .turn, .runProc (.refused 3), .stopWorkerThread,
        .callbackConnect (.inProgress 3)] = some s) (hdead : s.Deadlocked) : False :=
    hall s (System.reachable_of_run hinit hrun) hdead
  exact hlate _ rfl ⟨rfl, rfl⟩

end Connector

end Brynet
