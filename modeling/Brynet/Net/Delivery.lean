import Mathlib.Data.UInt
import Brynet.Net.ConnectionOutput
import Brynet.Net.Ledger

/-!
# The way of a packet to its session

The invariants of the ledger.  `Ids`: every id is made for one socket, as long as
the counter has not wrapped around.  `Ordered`: the calls that were looked up,
followed by those that wait, are a merge of what the callers sent.  `Delivers`: a
socket got the calls on its id that were looked up, in their order, up to the
point where it left the table.

The first result, `send_stream_integrity`, is assembled from the three and from
`Streams`:

* what the kernel has accepted is a prefix of what was delivered to the socket
  (`streams_of_reachable`);
* what was delivered is a prefix of the calls on its id that were looked up
  (`Delivers`), since the lookups fail once the socket has left the table;
* the calls that were looked up are a prefix of a merge of what the callers sent
  (`Ordered`), as there is one queue for the other threads, in push order.
-/

namespace Brynet

open Merge

/-- The calls on `sid`, with their callers. -/
def toSession (calls : List SendCall) (sid : SessionId) : List (Caller × List UInt8) :=
  calls.filterMap fun call => if call.2.1 = sid then some (call.1, call.2.2) else none

theorem toSession_append (first second : List SendCall) (sid : SessionId) :
    toSession (first ++ second) sid = toSession first sid ++ toSession second sid :=
  List.filterMap_append

theorem toSession_singleton_of_ne {call : SendCall} {sid : SessionId} (h : call.2.1 ≠ sid) :
    toSession [call] sid = [] := by
  simp [toSession, h]

theorem toSession_singleton_self (call : SendCall) :
    toSession [call] call.2.1 = [(call.1, call.2.2)] := by
  simp [toSession]

theorem caller_of_mem_toSession {calls : List SendCall} {sid : SessionId}
    {item : Caller × List UInt8} (h : item ∈ toSession calls sid) :
    ∃ call ∈ calls, call.2.1 = sid ∧ call.1 = item.1 := by
  obtain ⟨call, hcall, heq⟩ := List.mem_filterMap.mp h
  split at heq
  · cases heq
    exact ⟨call, hcall, ‹_›, rfl⟩
  · cases heq

namespace Ledger

variable {loopIndex : ℕ} {label : Option SendCall} {l l' : Ledger} {ds : Ptr} {sid : SessionId}

/-! ## Ids -/

/-- The `iid` fields count the ids, and every socket has at most one. -/
structure Ids (l : Ledger) : Prop where
  iids : l.made.map (fun session => session.2.iid) =
    (List.range l.data.mNextId).map UInt32.ofNat
  sockets_nodup : (l.made.map Prod.fst).Nodup

theorem mNextId_of_makeID {data data' : IOLoopData}
    (h : data.makeID loopIndex = some (sid, data')) :
    sid.iid = UInt32.ofNat data.mNextId ∧ data'.mNextId = data.mNextId + 1 := by
  obtain ⟨⟨id, sockets⟩, -, heq⟩ := Option.map_eq_some_iff.mp h
  rw [Prod.mk.injEq] at heq
  obtain ⟨rfl, rfl⟩ := heq
  exact ⟨rfl, rfl⟩

theorem Ids.step (h : l.Ids) (hstep : Step loopIndex label l l') : l'.Ids := by
  cases hstep with
  | same => exact h
  | queued | dequeued | called => exact ⟨h.iids, h.sockets_nodup⟩
  | entered hmake hfresh =>
      obtain ⟨hiid, hnext⟩ := mNextId_of_makeID hmake
      refine ⟨?_, ?_⟩
      · change (l.made ++ _).map _ = (List.range (IOLoopData.mNextId _)).map _
        rw [IOLoopData.setSocket, hnext, List.range_succ, List.map_append, List.map_append, h.iids,
          List.map_singleton, List.map_singleton, hiid]
      · rw [List.map_append, List.map_singleton]
        refine List.nodup_append.mpr ⟨h.sockets_nodup, List.nodup_singleton _, ?_⟩
        intro owner howner other hother
        obtain ⟨session, hsession, rfl⟩ := List.mem_map.mp howner
        rw [List.mem_singleton] at hother
        exact hother ▸ hfresh session hsession
  | closed => exact ⟨h.iids, h.sockets_nodup⟩

/-- The counter does not go back. -/
theorem Step.mNextId_le (hstep : Step loopIndex label l l') :
    l.data.mNextId ≤ l'.data.mNextId := by
  cases hstep with
  | same | queued | dequeued | called | closed => exact Nat.le_refl _
  | entered hmake _ =>
      rw [IOLoopData.setSocket, (mNextId_of_makeID hmake).2]
      exact Nat.le_succ _

theorem ofNat_inj {m n : ℕ} (hm : m < 2 ^ 32) (hn : n < 2 ^ 32)
    (h : UInt32.ofNat m = UInt32.ofNat n) : m = n := by
  have hval := congrArg UInt32.toNat h
  rw [UInt32.toNat_ofNat', UInt32.toNat_ofNat'] at hval
  omega

/-- While the counter has not wrapped around, an id belongs to one socket. -/
theorem Ids.socket_unique (h : l.Ids) (hfew : l.data.mNextId ≤ 2 ^ 32) {owner : Ptr}
    (hds : (ds, sid) ∈ l.made) (howner : (owner, sid) ∈ l.made) : owner = ds := by
  have hnodup : (l.made.map (fun session => session.2.iid)).Nodup := by
    rw [h.iids]
    refine List.nodup_range.map_on ?_
    intro m hm n hn heq
    rw [List.mem_range] at hm hn
    exact ofNat_inj (by omega) (by omega) heq
  have hsame := List.inj_on_of_nodup_map hnodup howner hds rfl
  exact congrArg Prod.fst hsame

/-- A socket has one id. -/
theorem Ids.id_unique (h : l.Ids) {other : SessionId} (hsid : (ds, sid) ∈ l.made)
    (hother : (ds, other) ∈ l.made) : other = sid :=
  congrArg Prod.snd (List.inj_on_of_nodup_map h.sockets_nodup hother hsid rfl)

/-- The next id was not made before. -/
theorem Ids.fresh (h : l.Ids) (hfew : l.data.mNextId < 2 ^ 32) {data : IOLoopData}
    (hmake : l.data.makeID loopIndex = some (sid, data)) : ∀ owner, (owner, sid) ∉ l.made := by
  intro owner hmem
  have hiid : sid.iid ∈ (List.range l.data.mNextId).map UInt32.ofNat := by
    rw [← h.iids]
    exact List.mem_map_of_mem hmem
  obtain ⟨n, hn, heq⟩ := List.mem_map.mp hiid
  rw [List.mem_range] at hn
  rw [(mNextId_of_makeID hmake).1] at heq
  have := ofNat_inj (by omega) hfew heq
  omega

/-! ## The order of the calls -/

/-- What was looked up and what waits is a merge of what was sent. -/
structure Ordered (l : Ledger) : Prop where
  merged : ∀ sid, IsMerge (toSession (l.handled ++ l.pending) sid)
    (itemsOf (toSession l.sent sid))
  threads : ∀ call ∈ l.pending, call.1 ≠ none

/-- A call of one caller does not change the sequences of the others. -/
theorem itemsOf_toSession_singleton {call : SendCall} {caller : Caller} (h : call.1 ≠ caller)
    (sid : SessionId) : itemsOf (toSession [call] sid) caller = [] := by
  apply itemsOf_eq_nil
  intro item hitem
  obtain ⟨other, hother, -, hcaller⟩ := caller_of_mem_toSession hitem
  rw [List.mem_singleton] at hother
  rw [← hcaller, hother]
  exact h

theorem Ordered.step (h : l.Ordered) (hstep : Step loopIndex label l l') : l'.Ordered := by
  cases hstep with
  | same | entered | closed => exact ⟨h.merged, h.threads⟩
  | @queued _ call hcaller =>
      refine ⟨?_, ?_⟩
      · intro sid caller
        have hold := h.merged sid caller
        change itemsOf (toSession (l.handled ++ (l.pending ++ [call])) sid) caller =
          itemsOf (toSession (l.sent ++ [call]) sid) caller
        simp only [toSession_append, itemsOf_append] at hold ⊢
        rw [← hold, List.append_assoc]
      · intro other hother
        rcases List.mem_append.mp hother with hold | hnew
        · exact h.threads other hold
        · exact List.mem_singleton.mp hnew ▸ hcaller
  | @dequeued _ call rest hpending =>
      refine ⟨?_, ?_⟩
      · intro sid caller
        have hold := h.merged sid caller
        rw [hpending, ← List.singleton_append, ← List.append_assoc] at hold
        exact hold
      · intro other hother
        exact h.threads other (hpending ▸ List.mem_cons_of_mem _ hother)
  | @called _ call hcaller =>
      refine ⟨?_, h.threads⟩
      intro sid caller
      have hold := h.merged sid caller
      change itemsOf (toSession (l.handled ++ [call] ++ l.pending) sid) caller =
        itemsOf (toSession (l.sent ++ [call]) sid) caller
      simp only [toSession_append, itemsOf_append] at hold ⊢
      rw [← hold, List.append_assoc, List.append_assoc]
      congr 1
      -- The loop thread has nothing pending, the other callers did not call.
      by_cases heq : caller = none
      · have hnone : itemsOf (toSession l.pending sid) caller = [] := by
          apply itemsOf_eq_nil
          intro item hitem
          obtain ⟨other, hother, -, hcaller'⟩ := caller_of_mem_toSession hitem
          rw [← hcaller', heq]
          exact h.threads other hother
        rw [hnone, List.append_nil, List.nil_append]
      · have hother : call.1 ≠ caller := by
          rw [hcaller]
          exact fun hnone => heq hnone.symm
        rw [itemsOf_toSession_singleton hother, List.append_nil, List.nil_append]

/-! ## Delivery -/

/-- Calls are on ids that were made, and what a socket got are the calls on its
id that were looked up, all of them while the socket is in its slot. -/
structure Delivers (l : Ledger) : Prop where
  issued : ∀ call ∈ l.handled ++ l.pending, ∃ ds, (ds, call.2.1) ∈ l.made
  unmade : ∀ ds, (∀ session ∈ l.made, session.1 ≠ ds) → l.delivered ds = []
  in_order : ∀ ds sid, (ds, sid) ∈ l.made → l.delivered ds <+: toSession l.handled sid
  complete : ∀ ds sid, (ds, sid) ∈ l.made →
    l.data.mDataSockets.get sid.index.toNat = some (some ds) →
    l.delivered ds = toSession l.handled sid

theorem find_eq_some {owner : Ptr} :
    l.find sid = some owner ↔
      l.data.mDataSockets.get sid.index.toNat = some (some owner) ∧ (owner, sid) ∈ l.made := by
  unfold find
  split
  · rename_i ds hget
    rw [hget]
    split
    · rename_i hmade
      simp only [Option.some.injEq]
      exact ⟨fun heq => ⟨heq, heq ▸ hmade⟩, fun h => h.1⟩
    · rename_i hmade
      simp only [reduceCtorEq, Option.some.injEq, false_iff, not_and]
      exact fun heq => heq ▸ hmade
  · rename_i hmiss
    simp only [reduceCtorEq, false_iff, not_and]
    exact fun hget => absurd hget (hmiss owner)

theorem delivered_handle_of_ne {call : SendCall} (hne : l.find call.2.1 ≠ some ds) :
    (l.handle call).delivered ds = l.delivered ds := by
  cases hfind : l.find call.2.1 with
  | some owner =>
      have hother : ds ≠ owner := by
        rintro rfl
        exact hne hfind
      simp only [handle, hfind, Function.update_of_ne hother]
  | none => simp only [handle, hfind]

theorem delivered_handle_self {call : SendCall} (hfind : l.find call.2.1 = some ds) :
    (l.handle call).delivered ds = l.delivered ds ++ [(call.1, call.2.2)] := by
  simp only [handle, hfind, Function.update_self]

/-- A lookup keeps the order: it delivers to the socket in the slot of the id, if
that is the one the id was made for. -/
theorem Delivers.handle (h : l.Delivers) (hids : l.Ids) {call : SendCall} {sent : List SendCall}
    {rest : List SendCall} (hrest : ∀ other ∈ rest, other ∈ l.pending)
    (hissued : ∃ ds, (ds, call.2.1) ∈ l.made) :
    Delivers ({ l with pending := rest, sent := sent }.handle call) := by
  have hfind : ({ l with pending := rest, sent := sent } : Ledger).find call.2.1 =
      l.find call.2.1 := rfl
  have hhandled : ∀ sid, toSession (l.handled ++ [call]) sid =
      toSession l.handled sid ++ toSession [call] sid := fun sid => toSession_append _ _ sid
  refine ⟨?_, ?_, ?_, ?_⟩
  · intro other hother
    change other ∈ (l.handled ++ [call]) ++ rest at hother
    rw [List.mem_append, List.mem_append, List.mem_singleton] at hother
    rcases hother with (hold | rfl) | hold
    · exact h.issued other (List.mem_append_left _ hold)
    · exact hissued
    · exact h.issued other (List.mem_append_right _ (hrest other hold))
  · intro ds hunmade
    rw [delivered_handle_of_ne]
    · exact h.unmade ds hunmade
    · intro heq
      exact hunmade _ (find_eq_some.mp heq).2 rfl
  · intro ds sid hmade
    change _ <+: toSession (l.handled ++ [call]) sid
    rw [hhandled]
    -- Either the call is delivered to this socket, as the next one of its id, or it is not for it.
    by_cases heq : l.find call.2.1 = some ds
    · obtain ⟨hget, hmade'⟩ := find_eq_some.mp heq
      have hsid : call.2.1 = sid := hids.id_unique hmade hmade'
      rw [delivered_handle_self (hfind.trans heq), ← hsid, toSession_singleton_self]
      change l.delivered ds ++ _ <+: _
      rw [h.complete ds call.2.1 hmade' hget]
    · rw [delivered_handle_of_ne (hfind ▸ heq)]
      exact (h.in_order ds sid hmade).trans (List.prefix_append _ _)
  · intro ds sid hmade hget
    change _ = toSession (l.handled ++ [call]) sid
    rw [hhandled]
    by_cases hsid : call.2.1 = sid
    · have heq : l.find call.2.1 = some ds := find_eq_some.mpr (hsid ▸ ⟨hget, hmade⟩)
      rw [delivered_handle_self (hfind.trans heq), ← hsid, toSession_singleton_self]
      change l.delivered ds ++ _ = _
      rw [h.complete ds sid hmade hget, hsid]
    · have heq : l.find call.2.1 ≠ some ds := by
        intro heq
        exact hsid (hids.id_unique hmade (find_eq_some.mp heq).2)
      rw [delivered_handle_of_ne (hfind ▸ heq), toSession_singleton_of_ne hsid, List.append_nil]
      exact h.complete ds sid hmade hget

theorem Delivers.step (h : l.Delivers) (hids : l.Ids) (hfew : l.data.mNextId < 2 ^ 32)
    (hstep : Step loopIndex label l l')
    (hlabel : ∀ call, label = some call → ∃ ds, (ds, call.2.1) ∈ l.made) : l'.Delivers := by
  cases hstep with
  | same => exact h
  | @queued _ call _ =>
      refine ⟨?_, h.unmade, h.in_order, h.complete⟩
      intro other hother
      rw [← List.append_assoc, List.mem_append, List.mem_singleton] at hother
      rcases hother with hold | rfl
      · exact h.issued other hold
      · exact hlabel other rfl
  | @dequeued _ call rest hpending =>
      refine h.handle hids (fun other hother => hpending ▸ List.mem_cons_of_mem _ hother) ?_
      exact h.issued call (List.mem_append_right _ (hpending ▸ List.mem_cons_self ..))
  | @called _ call _ => exact h.handle hids (fun _ hother => hother) (hlabel call rfl)
  | @entered _ ds sid data hmake hfresh =>
      have hnew := hids.fresh hfew hmake
      -- Nobody has called on the new id yet.
      have hcalls : toSession l.handled sid = [] := by
        rw [toSession, List.filterMap_eq_nil_iff]
        intro call hcall
        obtain ⟨owner, howner⟩ := h.issued call (List.mem_append_left _ hcall)
        rw [if_neg]
        rintro rfl
        exact hnew owner howner
      have hempty := h.unmade ds hfresh
      refine ⟨?_, ?_, ?_, ?_⟩
      · intro call hcall
        obtain ⟨owner, howner⟩ := h.issued call hcall
        exact ⟨owner, List.mem_append_left _ howner⟩
      · intro other hother
        exact h.unmade other fun session hsession =>
          hother session (List.mem_append_left _ hsession)
      · intro other sid' hmade
        rcases List.mem_append.mp hmade with hold | hlast
        · exact h.in_order other sid' hold
        · rw [List.mem_singleton, Prod.mk.injEq] at hlast
          obtain ⟨rfl, rfl⟩ := hlast
          change l.delivered other <+: _
          rw [hempty]
          exact List.nil_prefix
      · intro other sid' hmade hget
        rcases List.mem_append.mp hmade with hold | hlast
        · rcases IOLoop.get_enterCallback hmake hget with ⟨rfl, -⟩ | hget'
          · exact absurd rfl (hfresh _ hold)
          · exact h.complete other sid' hold hget'
        · rw [List.mem_singleton, Prod.mk.injEq] at hlast
          obtain ⟨rfl, rfl⟩ := hlast
          change l.delivered other = _
          rw [hempty]
          exact hcalls.symm
  | closed sid =>
      refine ⟨h.issued, h.unmade, h.in_order, ?_⟩
      intro ds sid' hmade hget
      exact h.complete ds sid' hmade (IOLoop.get_procDataSocketClose hget).2

end Ledger

/-! ## Send integrity -/

namespace IOLoop

open Transition Memory

variable {malloc : Allocator} {loopIndex : ℕ} {s : IOLoop}

/-- Whether `MakeID` has returned `sid`. -/
def issued (s : IOLoop) (sid : SessionId) : Bool :=
  s.trace.any fun (_, event) => event == .makeID sid

/-- Callers send to ids they were given. -/
def sendsToIssued (s : IOLoop) (action : IOLoopAction) : Bool :=
  action.send?.all fun call => s.issued call.2.1

theorem exists_of_issued {sid : SessionId} (h : s.issued sid = true) :
    ∃ ds, (ds, sid) ∈ s.ledger.made := by
  obtain ⟨⟨ds, event⟩, hmem, heq⟩ := List.any_eq_true.mp h
  rw [beq_iff_eq] at heq
  subst heq
  exact ⟨ds, mem_madeIn.mpr hmem⟩

theorem ids_of_reachable (h : (system malloc loopIndex).Reachable s) : s.ledger.Ids := by
  refine h.invariant (I := fun s => s.ledger.Ids) ?_ ?_
  · rintro s rfl
    exact ⟨rfl, List.nodup_nil⟩
  · intro s action s' hr hids hnext
    exact hids.step ((good_of_reachable hr).ledger_next hnext)

theorem ordered_of_reachable (h : (system malloc loopIndex).Reachable s) : s.ledger.Ordered := by
  refine h.invariant (I := fun s => s.ledger.Ordered) ?_ ?_
  · rintro s rfl
    exact ⟨fun _ _ => rfl, by simp [ledger, initial]⟩
  · intro s action s' hr hordered hnext
    exact hordered.step ((good_of_reachable hr).ledger_next hnext)

/-- Before the counter wraps around, calls on issued ids are delivered in order. -/
theorem delivers_of_reachable (h : ((system malloc loopIndex).restrict sendsToIssued).Reachable s)
    (hfew : s.data.mNextId < 2 ^ 32) : s.ledger.Delivers := by
  refine h.invariant (I := fun s => s.data.mNextId < 2 ^ 32 → s.ledger.Delivers) ?_ ?_ hfew
  · rintro s rfl _
    exact ⟨by simp [ledger, initial], fun _ _ => rfl, by simp [ledger, initial, madeIn],
      by simp [ledger, initial, madeIn]⟩
  · intro s action s' hr hdelivers hnext hfew
    obtain ⟨hok, hnext⟩ := System.next_of_restrict hnext
    have hr := hr.of_restrict
    have hstep := (good_of_reachable hr).ledger_next hnext
    have hfew' : s.data.mNextId < 2 ^ 32 := hstep.mNextId_le.trans_lt hfew
    refine (hdelivers hfew').step (ids_of_reachable hr) hfew' hstep ?_
    intro call hcall
    rw [sendsToIssued, hcall] at hok
    exact exists_of_issued hok

theorem streams_of_reachable (h : (system malloc loopIndex).Reachable s) (ds : Ptr) :
    (s.connection ds).Streams :=
  connection_invariant Connection.streams_absent (fun _ _ _ => Connection.Streams.step) h ds

/-- **Send integrity.**  The bytes the kernel has accepted for a session are a
prefix of the packets sent to its id, in an order that is a merge of the callers'
own sequences. -/
theorem send_stream_integrity (malloc : Allocator) (loopIndex : ℕ) (s : IOLoop)
    (h : ((system malloc loopIndex).restrict sendsToIssued).Reachable s)
    (hfew : s.data.mNextId < 2 ^ 31) (ds : Ptr) (sid : SessionId)
    (hmade : (ds, .makeID sid) ∈ s.trace) :
    ∃ merged : List (Caller × List UInt8),
      IsMerge merged (fun caller => itemsOf (toSession s.sent sid) caller) ∧
      s.wire ds <+: merged.flatMap Prod.snd := by
  have hr := h.of_restrict
  have hdelivers := delivers_of_reachable h (hfew.trans (by decide))
  refine ⟨toSession (s.ledger.handled ++ s.ledger.pending) sid,
    (ordered_of_reachable hr).merged sid, ?_⟩
  have hlookedUp : s.delivered ds <+: toSession s.ledger.handled sid :=
    hdelivers.in_order ds sid (mem_madeIn.mpr hmade)
  have hall : s.delivered ds <+: toSession (s.ledger.handled ++ s.ledger.pending) sid := by
    rw [toSession_append]
    exact hlookedUp.trans (List.prefix_append _ _)
  obtain ⟨later, hlater⟩ := hall
  rw [← hlater, List.flatMap_append]
  exact (streams_of_reachable hr ds).started.trans (List.prefix_append _ _)

/-- Another thread sends three bytes, of which the kernel accepts two. -/
theorem send_stream_integrity_two_bytes :
    ∃ s, ((system .unlimited 0).restrict sendsToIssued).Reachable s ∧ s.wire 0 = [1, 2] ∧
      ∃ merged : List (Caller × List UInt8),
        IsMerge merged (fun caller => itemsOf (toSession s.sent ⟨0, 99, 0⟩) caller) ∧
        s.wire 0 <+: merged.flatMap Prod.snd := by
  have hrun : (((system .unlimited 0).restrict sendsToIssued).run initial
      [.threadAdd 5 1024, .poll [], .entriesDone, .runAsync true,
        .threadOp 7 ⟨0, 99, 0⟩ (.send [1, 2, 3] false), .userReturn, .asyncDone, .afterDone,
        .timersDone, .userReturn, .poll [], .entriesDone, .runAsync true, .asyncDone, .runAfter,
        .writev (.accepted 2)]).map
      (fun s => (s.wire 0, s.data.mNextId, decide ((0, .makeID ⟨0, 99, 0⟩) ∈ s.trace))) =
      some ([1, 2], 1, true) := by decide
  obtain ⟨s, hs, heq⟩ := Option.map_eq_some_iff.mp hrun
  simp only [Prod.mk.injEq, decide_eq_true_eq] at heq
  obtain ⟨hwire, hnext, hmade⟩ := heq
  have hreach := System.reachable_of_run rfl hs
  exact ⟨s, hreach, hwire,
    send_stream_integrity .unlimited 0 s hreach (by rw [hnext]; decide) 0 ⟨0, 99, 0⟩ hmade⟩

end IOLoop

end Brynet
