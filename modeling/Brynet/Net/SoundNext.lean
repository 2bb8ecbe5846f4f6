import Brynet.Net.LoopStep
import Brynet.Net.Soundness

/-!
# Entering, the queues, and all steps together

The remaining steps of the loop: sockets that are created and enter, and the
queues of async and after-loop procs.  `Inv.sound_next` covers every action.

Three kinds of steps are left after `Soundness`:

* a socket is made and enters (`sound_newSocket`, `sound_enter`): its connection is `absent`
  before, and all others stand still;
* a queue is taken over or a proc taken off it (`sound_asyncDone`, `sound_runAsync`,
  `sound_runAfter`): the closures of a socket keep their order;
* no connection changes at all (`sound_of_same`).
-/

namespace Brynet

open MachineInt Memory Transition

namespace IOLoop

variable {s s' : IOLoop} {ds : Ptr} {d : DataSocket} {malloc : Allocator} {loopIndex : ℕ}

/-! ## New sockets -/

theorem isNew_of_new {socket : Sock} {maxRecvBufferSize : ℕ}
    (h : DataSocket.new malloc socket maxRecvBufferSize = some d) : Connection.IsNew d := by
  obtain ⟨buffer, -, rfl⟩ := Option.map_eq_some_iff.mp h
  exact ⟨rfl, rfl, rfl, rfl, rfl, rfl, rfl, rfl⟩

/-- A new object is the next one, it has not entered, and nothing refers to it. -/
theorem Inv.sound_newSocket (inv : s.Inv) {socket : Sock} {maxRecvBufferSize : ℕ}
    (h : s.newSocket malloc socket maxRecvBufferSize = some (ds, s')) :
    Sound s s' ∧ ds = s.nextPtr ∧ s'.nextPtr = s.nextPtr + 1 ∧ s'.pc = s.pc ∧
      s'.mCopyAsyncProcs = s.mCopyAsyncProcs ∧ s'.mAsyncProcs = s.mAsyncProcs ∧
      ∃ d, s'.heap ds = some d ∧ d.mEventLoop = false := by
  unfold newSocket at h
  split at h
  · cases h
  · obtain ⟨d, hnew, heq⟩ := Option.map_eq_some_iff.mp h
    rw [Prod.mk.injEq] at heq
    obtain ⟨rfl, rfl⟩ := heq
    have hnew := isNew_of_new hnew
    have hne : ∀ {other e}, s.heap other = some e → other ≠ s.nextPtr :=
      fun he => (inv.refs.lt_of_heap he).ne
    have hheap : ∀ {other e}, s.heap other = some e →
        Function.update s.heap s.nextPtr (some d) other = some e := by
      intro other e he
      rw [Function.update_of_ne (hne he), he]
    refine ⟨⟨⟨?_, inv.refs.entries_part, inv.refs.async_part, inv.refs.after_part, ?_, ?_, ?_,
      inv.refs.entering_nodup, ?_⟩, ?_, inv.fault⟩, rfl, rfl, rfl, rfl, rfl, d,
      Function.update_self .., hnew.eventLoop⟩
    -- No number from `nextPtr` on was in use, so nothing refers to the new object.
    · intro other hother
      have hother' : s.nextPtr < other := hother
      rw [← inv.refs.fresh other hother'.le]
      simp only [connection, procsOf, historyOf, Function.update_of_ne hother'.ne']
    · intro index owner hget
      obtain ⟨hclosing, e, sid, he, hud, hindex⟩ := inv.refs.slots index owner hget
      exact ⟨hclosing, e, sid, hheap he, hud, hindex⟩
    -- The timers, the closures and the entries are for objects that were there before.
    · intro timer hmem hactive
      obtain ⟨e, he, hid⟩ := inv.refs.timers timer hmem hactive
      exact ⟨e, hheap he, hid⟩
    · intro owner hmem
      obtain ⟨e, he, hno⟩ := inv.refs.entering owner hmem
      exact ⟨e, hheap he, hno⟩
    · intro entry hentry
      obtain ⟨e, he, hyes⟩ := inv.refs.entries entry hentry
      exact ⟨e, hheap he, hyes⟩
    -- The new connection takes the step `created`; the others stand still.
    · intro other
      by_cases heq : other = s.nextPtr
      · subst heq
        rw [inv.refs.fresh _ (Nat.le_refl _)]
        have habsent := inv.refs.fresh s.nextPtr (Nat.le_refl _)
        have hcreated : ({ s with
            heap := Function.update s.heap s.nextPtr (some d), nextPtr := s.nextPtr + 1 }
            : IOLoop).connection s.nextPtr = { Connection.absent with socket := some d } := by
          rw [← habsent]
          simp only [connection, procsOf, historyOf, Function.update_self]
        rw [hcreated]
        exact .single (.created hnew)
      · have hsame : ({ s with
            heap := Function.update s.heap s.nextPtr (some d), nextPtr := s.nextPtr + 1 }
            : IOLoop).connection other = s.connection other := by
          simp only [connection, procsOf, historyOf, Function.update_of_ne heq]
        rw [hsame]

/-! ## Entering -/

/-- The loop thread may go on at `back` after a socket has entered. -/
structure Returns (s : IOLoop) (back : IOLoopPc) : Prop where
  part : back.part = s.pc.part
  closing : ∀ ds, back = .disConnectCallback ds → s.pc = .disConnectCallback ds
  activity : ∀ ds, back.activity ds = s.pc.activity ds

/-- The slot of the new session holds its socket, the others are as they were. -/
theorem get_enterCallback {data data' : IOLoopData} {sid : SessionId} {index : ℕ} {owner : Ptr}
    (hmake : data.makeID loopIndex = some (sid, data'))
    (hget : (data'.setSocket (some ds) sid).mDataSockets.get index = some (some owner)) :
    owner = ds ∧ index = sid.index.toNat ∨ data.mDataSockets.get index = some (some owner) := by
  obtain ⟨⟨id, sockets⟩, hclaim, heq⟩ := Option.map_eq_some_iff.mp hmake
  rw [Prod.mk.injEq] at heq
  obtain ⟨rfl, rfl⟩ := heq
  generalize (UInt16.ofNat id) = slot at hget ⊢
  have hset : (sockets.set (some ds) slot.toNat).get index = some (some owner) := hget
  by_cases heq : index = slot.toNat
  · left
    subst heq
    have hlt : slot.toNat < sockets.mValues.length := by
      by_contra hge
      simp [TypeIDS.get, TypeIDS.set, hge] at hset
    rw [TypeIDS.get_set_self hlt, Option.some.injEq, Option.some.injEq] at hset
    exact ⟨hset.symm, rfl⟩
  · right
    rw [TypeIDS.get_set_of_ne heq] at hset
    exact TypeIDS.get_of_claimID hclaim hset

theorem Inv.sound_enterCallback (inv : s.Inv) {back : IOLoopPc} (hd : s.heap ds = some d)
    (hno : d.mEventLoop = false) (hunique : .enter ds ∉ s.mCopyAsyncProcs ++ s.mAsyncProcs)
    (hback : Returns s back) (h : s.enterCallback loopIndex ds d = some s') :
    Sound s { s' with pc := back } := by
  obtain ⟨⟨sid, data'⟩, hmake, rfl⟩ := Option.map_eq_some_iff.mp h
  obtain ⟨hnew, -, haway⟩ := ((inv.wf ds).posted d hd).unentered hno
  have hlt := inv.refs.lt_of_heap hd
  have hlocal : Local s { s with
      data := data'.setSocket (some ds) sid
      heap := Function.update s.heap ds
        (some { d with mEventLoop := true, mUD := some sid, mDataCallback := true })
      trace := s.trace ++ [(ds, .makeID sid), (ds, .enterCallback)]
      pc := back } ds := by
    refine ⟨?_, .single ?_⟩
    · intro other hne
      simp [connection, procsOf, historyOf, Function.update_of_ne hne, hback.activity, hne.symm]
    · have hstep := Connection.Step.entered (c := s.connection ds) sid hd hno
      simpa [connection, procsOf, historyOf, hback.activity, Connection.log] using hstep
  have hheap : ∀ {other e}, other ≠ ds → s.heap other = some e →
      Function.update s.heap ds
        (some { d with mEventLoop := true, mUD := some sid, mDataCallback := true }) other =
        some e := by
    intro other e hne he
    rw [Function.update_of_ne hne, he]
  -- What is left is that the references of the loop are as good as before.
  refine ⟨⟨?_, ?_, ?_, ?_, ?_, ?_, ?_, inv.refs.entering_nodup, ?_⟩, hlocal.all, inv.fault⟩
  · intro other hother
    rw [hlocal.others other (hlt.trans_le hother).ne']
    exact inv.refs.fresh other hother
  · intro hne
    exact hback.part.trans (inv.refs.entries_part hne)
  · intro hne
    exact hback.part.trans (inv.refs.async_part hne)
  · intro hne
    exact hback.part.trans (inv.refs.after_part hne)
  -- The slot that was claimed, and those of sessions that entered before.
  · intro index owner hget
    rcases get_enterCallback hmake hget with ⟨rfl, rfl⟩ | hold
    · refine ⟨?_, _, sid, Function.update_self .., rfl, rfl⟩
      intro hclosing
      have hpc := hback.closing owner hclosing
      have hbusy : s.pc.activity owner = .away := haway
      rw [hpc, activity_self rfl] at hbusy
      cases hbusy
    · obtain ⟨hclosing, e, sid', he, hud, hindex⟩ := inv.refs.slots index owner hold
      have hne : owner ≠ ds := by
        rintro rfl
        rw [hd, Option.some.injEq] at he
        rw [← he, hnew.ud] at hud
        cases hud
      exact ⟨fun hpc => hclosing (hback.closing owner hpc), e, sid', hheap hne he, hud, hindex⟩
  -- No timer and no poll entry is for an object that has not entered.
  · intro timer hmem hactive
    obtain ⟨e, he, hid⟩ := inv.refs.timers timer hmem hactive
    have hne : timer.ds ≠ ds := by
      intro heq
      rw [heq, hd, Option.some.injEq] at he
      rw [← he, hnew.timer] at hid
      cases hid
    exact ⟨e, hheap hne he, hid⟩
  · intro owner hmem
    obtain ⟨e, he, hout⟩ := inv.refs.entering owner hmem
    have hne : owner ≠ ds := by
      rintro rfl
      exact hunique hmem
    exact ⟨e, hheap hne he, hout⟩
  · intro entry hentry
    obtain ⟨e, he, hyes⟩ := inv.refs.entries entry hentry
    have hne : entry.ds ≠ ds := by
      intro heq
      rw [heq, hd, Option.some.injEq] at he
      rw [← he, hno] at hyes
      cases hyes
    exact ⟨e, hheap hne he, hyes⟩

/-- The closure of `helpAddChannel` for an object that is there and has not
entered. -/
theorem Inv.sound_enter (inv : s.Inv) {back : IOLoopPc} {linked : Bool}
    (hd : s.heap ds = some d) (hno : d.mEventLoop = false)
    (hunique : .enter ds ∉ s.mCopyAsyncProcs ++ s.mAsyncProcs) (hback : Returns s back)
    (h : s.enter loopIndex ds linked back = some s') : Sound s s' := by
  simp only [enter, hd, hno, Bool.false_eq_true, if_false] at h
  split at h
  · obtain ⟨mid, hmid, rfl⟩ := Option.map_eq_some_iff.mp h
    exact inv.sound_enterCallback hd hno hunique hback hmid
  · cases h
    obtain ⟨hnew, -, -⟩ := ((inv.wf ds).posted d hd).unentered hno
    have hlt := inv.refs.lt_of_heap hd
    have hkeeps : Keeps s (s.store ds d (d.closeSocket, [])) := by
      refine .update rfl hd ?_ ?_ ?_
      all_goals unfold DataSocket.closeSocket
      all_goals split <;> rfl
    have hclosed : (s.store ds d (d.closeSocket, [])).Refs :=
      inv.refs.of_keeps hkeeps
        ⟨rfl, rfl, rfl, rfl, rfl, rfl, rfl, inv.refs.after_part, fun _ hpc => hpc⟩
        (fun _ hne => connection_store_of_ne hne) hlt
    -- An object that has not entered is in no slot, and no event is for it.
    have hunslotted : ∀ index, s.data.mDataSockets.get index ≠ some (some ds) := by
      intro index hget
      obtain ⟨-, e, sid, he, hud, -⟩ := inv.refs.slots index ds hget
      rw [hd, Option.some.injEq] at he
      rw [← he, hnew.ud] at hud
      cases hud
    have hunreported : ∀ entry ∈ s.entries, entry.ds ≠ ds := by
      intro entry hentry heq
      obtain ⟨e, he, hyes⟩ := inv.refs.entries entry hentry
      rw [heq, hd, Option.some.injEq] at he
      rw [← he, hno] at hyes
      cases hyes
    obtain ⟨hrefs, hothers, hself⟩ :=
      hclosed.delete (Function.update_self ..) hunslotted hunique hunreported
    refine ⟨hrefs, ?_, ?_⟩
    · -- Closing and deleting together are the step `refused`.
      intro other
      by_cases heq : other = ds
      · subst heq
        rw [hself, connection_store_self]
        have hstep := Connection.Step.refused (c := s.connection other) hd hno
        have hcall : { (s.connection other).call d (d.closeSocket, []) with socket := none } =
            { (s.connection other).log .closed with socket := none } := by
          simp [Connection.call, Connection.log, DataSocket.closeSocket, hnew.opened]
        rw [hcall]
        exact .single hstep
      · rw [hothers other heq, connection_store_of_ne heq]
    · have hfault : ((s.store ds d (d.closeSocket, [])).delete ds).fault = s.fault := by
        rw [delete_eq (Function.update_self ..)]
        unfold timerReset
        split <;> rfl
      rw [hfault]
      exact inv.fault

/-! ## The queues -/

/-- A step that no connection notices and that keeps the objects. -/
theorem Inv.sound_of_same (inv : s.Inv) (hconnection : ∀ ds, s'.connection ds = s.connection ds)
    (hnextPtr : s'.nextPtr = s.nextPtr) (hdata : s'.data = s.data) (htimers : s'.timers = s.timers)
    (hentering : ∀ ds, .enter ds ∈ s'.mCopyAsyncProcs ++ s'.mAsyncProcs →
      .enter ds ∈ s.mCopyAsyncProcs ++ s.mAsyncProcs)
    (hnodup : ((s'.mCopyAsyncProcs ++ s'.mAsyncProcs).filterMap AsyncProc.entering?).Nodup)
    (hentries : ∀ entry ∈ s'.entries, ∃ d, s.heap entry.ds = some d ∧ d.mEventLoop = true)
    (hentries_part : s'.entries ≠ [] → s'.pc.part = .events)
    (hasync_part : s'.mCopyAsyncProcs ≠ [] → s'.pc.part = .async)
    (hafter_part : s'.mCopyAfterLoopProcs ≠ [] → s'.pc.part = .after)
    (hclosing : ∀ ds, s'.pc = .disConnectCallback ds → s.pc = .disConnectCallback ds)
    (hfault : s'.fault = s.fault) : Sound s s' := by
  have hheap : ∀ ds, s'.heap ds = s.heap ds :=
    fun ds => congrArg Connection.socket (hconnection ds)
  refine ⟨⟨?_, hentries_part, hasync_part, hafter_part, ?_, ?_, ?_, hnodup, ?_⟩, ?_, hfault ▸ inv.fault⟩
  · intro ds hds
    rw [hconnection]
    exact inv.refs.fresh ds (hnextPtr ▸ hds)
  · intro index owner hget
    rw [hdata] at hget
    rw [hheap]
    obtain ⟨hno, hlive⟩ := inv.refs.slots index owner hget
    exact ⟨fun hpc => hno (hclosing owner hpc), hlive⟩
  · intro timer hmem hactive
    rw [htimers] at hmem
    rw [hheap]
    exact inv.refs.timers timer hmem hactive
  · intro owner hmem
    rw [hheap]
    exact inv.refs.entering owner (hentering owner hmem)
  · intro entry hentry
    rw [hheap]
    exact hentries entry hentry
  · intro ds
    rw [hconnection]

/-- The loop thread is in no socket, before and after. -/
theorem connection_of_away (pc : IOLoopPc) (hfrom : s.pc.socket? = none) (hto : pc.socket? = none)
    (ds : Ptr) : (s.goto pc).connection ds = s.connection ds := by
  simp only [connection, goto, procsOf, historyOf, IOLoopPc.activity, hfrom, hto]
  rfl

/-- A goto between places in no socket. -/
theorem Inv.sound_goto_away (inv : s.Inv) {pc : IOLoopPc} (hfrom : s.pc.socket? = none)
    (hto : pc.socket? = none) (hentries : s.entries ≠ [] → pc.part = .events)
    (hasync : s.mCopyAsyncProcs ≠ [] → pc.part = .async)
    (hafter : s.mCopyAfterLoopProcs ≠ [] → pc.part = .after) : Sound s (s.goto pc) := by
  refine inv.sound_of_same (connection_of_away _ hfrom hto) rfl rfl rfl (fun _ hmem => hmem)
    inv.refs.entering_nodup inv.refs.entries hentries hasync hafter ?_ rfl
  rintro ds rfl
  cases hto

/-- Another thread, or the loop thread, queues a closure that lets nothing enter. -/
theorem Inv.sound_pushAsync (inv : s.Inv) {proc : AsyncProc} (hproc : proc.entering? = none)
    (sent : List (Caller × SessionId × List UInt8)) :
    Sound s { s with mAsyncProcs := s.mAsyncProcs ++ [proc], sent := sent } := by
  refine inv.sound_of_same (fun _ => rfl) rfl rfl rfl ?_ ?_ inv.refs.entries inv.refs.entries_part
    inv.refs.async_part inv.refs.after_part (fun _ hpc => hpc) rfl
  · intro ds hmem
    rw [← List.append_assoc, List.mem_append, List.mem_singleton] at hmem
    rcases hmem with hold | rfl
    · exact hold
    · cases hproc
  · rw [← List.append_assoc, List.filterMap_append, List.filterMap_cons_none hproc,
      List.filterMap_nil, List.append_nil]
    exact inv.refs.entering_nodup

theorem Inv.sound_threadAdd (inv : s.Inv) {socket : Sock} {maxRecvBufferSize : ℕ}
    (h : s.newSocket malloc socket maxRecvBufferSize = some (ds, s')) :
    Sound s { s' with mAsyncProcs := s'.mAsyncProcs ++ [.enter ds] } := by
  obtain ⟨hsound, rfl, hnextPtr, -, hcopy, hasync, d, hd, hno⟩ := inv.sound_newSocket h
  have hrefs := hsound.refs
  refine ⟨⟨hrefs.fresh, hrefs.entries_part, hrefs.async_part, hrefs.after_part, hrefs.slots,
    hrefs.timers, ?_, ?_, hrefs.entries⟩, hsound.steps, hsound.fault⟩
  · intro owner hmem
    rw [← List.append_assoc, List.mem_append, List.mem_singleton] at hmem
    rcases hmem with hold | heq
    · exact hrefs.entering owner hold
    · cases heq
      exact ⟨d, hd, hno⟩
  · have hfresh : .enter s.nextPtr ∉ s.mCopyAsyncProcs ++ s.mAsyncProcs := by
      intro hmem
      obtain ⟨e, he, -⟩ := inv.refs.entering _ hmem
      exact absurd (inv.refs.lt_of_heap he) (lt_irrefl _)
    rw [← List.append_assoc, List.filterMap_append]
    refine List.nodup_append.mpr ⟨hrefs.entering_nodup, by simp [AsyncProc.entering?], ?_⟩
    intro owner howner other hother
    obtain ⟨proc, hproc, hentering⟩ := List.mem_filterMap.mp howner
    have heq : other = s.nextPtr := by simpa [AsyncProc.entering?] using hother
    rintro rfl
    subst heq
    cases proc with
    | enter ds =>
        cases hentering
        rw [hcopy, hasync] at hproc
        exact hfresh hproc
    | session | user => cases hentering

/-- The first of the copied async procs is taken out. -/
theorem Inv.sound_popAsync (inv : s.Inv) {proc : AsyncProc} {procs : List AsyncProc}
    (hcopy : s.mCopyAsyncProcs = proc :: procs) :
    Sound s { s with mCopyAsyncProcs := procs } ∧
      ∀ ds, proc = .enter ds → .enter ds ∉ procs ++ s.mAsyncProcs := by
  have hsublist : List.Sublist (procs ++ s.mAsyncProcs) (s.mCopyAsyncProcs ++ s.mAsyncProcs) := by
    rw [hcopy, List.cons_append]
    exact List.sublist_cons_self ..
  refine ⟨?_, ?_⟩
  · refine inv.sound_of_same (fun _ => rfl) rfl rfl rfl (fun _ hmem => hsublist.subset hmem)
      (inv.refs.entering_nodup.sublist (hsublist.filterMap _)) inv.refs.entries
      inv.refs.entries_part ?_ inv.refs.after_part (fun _ hpc => hpc) rfl
    intro _
    exact inv.refs.async_part (by simp [hcopy])
  · rintro ds rfl hmem
    have hnodup := inv.refs.entering_nodup
    have hself : AsyncProc.entering? (.enter ds) = some ds := rfl
    rw [hcopy, List.cons_append, List.filterMap_cons_some hself, List.nodup_cons] at hnodup
    exact hnodup.1 (List.mem_filterMap.mpr ⟨_, hmem, rfl⟩)

/-- The parts of a turn that the queues are not in. -/
theorem Inv.queues_of_part (inv : s.Inv) :
    (s.pc.part ≠ .events → s.entries = []) ∧ (s.pc.part ≠ .async → s.mCopyAsyncProcs = []) ∧
      (s.pc.part ≠ .after → s.mCopyAfterLoopProcs = []) := by
  refine ⟨?_, ?_, ?_⟩
  all_goals intro hpart
  all_goals by_contra hne
  · exact hpart (inv.refs.entries_part hne)
  · exact hpart (inv.refs.async_part hne)
  · exact hpart (inv.refs.after_part hne)

theorem Inv.sound_poll (inv : s.Inv) {entries : List EpollEntry} (hpc : s.pc = .phase .poll)
    (hreports : entries.all s.reports = true) :
    Sound s { s.goto (.phase .events) with entries := entries } := by
  obtain ⟨-, hasync, hafter⟩ := inv.queues_of_part
  have hfrom : s.pc.socket? = none := by rw [hpc]; rfl
  refine inv.sound_of_same (connection_of_away _ hfrom rfl) rfl rfl rfl (fun _ hmem => hmem)
    inv.refs.entering_nodup ?_ (fun _ => rfl) ?_ ?_ (by simp [goto]) rfl
  · intro entry hentry
    have hreport := List.all_eq_true.mp hreports entry hentry
    unfold reports at hreport
    split at hreport
    · rename_i d hd
      simp only [Bool.and_eq_true] at hreport
      exact ⟨d, hd, hreport.1.1⟩
    · cases hreport
  · exact fun hne => absurd (hasync (by rw [hpc]; simp [IOLoopPc.part])) hne
  · exact fun hne => absurd (hafter (by rw [hpc]; simp [IOLoopPc.part])) hne

theorem Inv.sound_entry (inv : s.Inv) {entry : EpollEntry} {rest : List EpollEntry}
    (hpc : s.pc = .phase .events) (hentries : s.entries = entry :: rest) :
    Sound s { s.goto (.calls entry.ds entry.calls) with entries := rest } := by
  obtain ⟨d, hd, hentered⟩ := inv.refs.entries entry (by simp [hentries])
  have hfrom : ∀ ds, s.pc.activity ds = .away := by
    intro ds
    rw [hpc, activity_phase]
  have hlocal : Local s { s.goto (.calls entry.ds entry.calls) with entries := rest } entry.ds := by
    refine ⟨?_, .single ?_⟩
    · intro other hne
      have hother : (IOLoopPc.calls entry.ds entry.calls).activity other = s.pc.activity other := by
        rw [hfrom, activity_of_ne rfl hne]
      simp only [connection, goto, procsOf, historyOf, hother]
    · have hself : (IOLoopPc.calls entry.ds entry.calls).activity entry.ds = .handling :=
        activity_self rfl
      have hstep := Connection.Step.handle (c := s.connection entry.ds) hd hentered (hfrom _)
      simpa only [connection, goto, procsOf, historyOf, hself] using hstep
  refine ⟨⟨?_, fun _ => rfl, ?_, ?_, ?_, inv.refs.timers, inv.refs.entering,
    inv.refs.entering_nodup, ?_⟩, hlocal.all, inv.fault⟩
  · intro other hother
    rw [hlocal.others other ((inv.refs.lt_of_heap hd).trans_le hother).ne']
    exact inv.refs.fresh other hother
  · intro hne
    exact absurd (inv.queues_of_part.2.1 (by rw [hpc]; simp [IOLoopPc.part])) hne
  · intro hne
    exact absurd (inv.queues_of_part.2.2 (by rw [hpc]; simp [IOLoopPc.part])) hne
  · intro index owner hget
    exact ⟨by simp [goto], (inv.refs.slots index owner hget).2⟩
  · intro other hother
    exact inv.refs.entries other (hentries ▸ List.mem_cons_of_mem _ hother)

theorem Inv.sound_entriesDone (inv : s.Inv) (hpc : s.pc = .phase .events)
    (hentries : s.entries = []) :
    Sound s { s.goto (.phase .async) with
      mCopyAsyncProcs := s.mAsyncProcs, mAsyncProcs := s.mCopyAsyncProcs } := by
  have hfrom : s.pc.socket? = none := by rw [hpc]; rfl
  have hcopy : s.mCopyAsyncProcs = [] := inv.queues_of_part.2.1 (by rw [hpc]; simp [IOLoopPc.part])
  have hnodup := inv.refs.entering_nodup
  refine inv.sound_of_same (connection_of_away _ hfrom rfl) rfl rfl rfl ?_ ?_ inv.refs.entries ?_
    (fun _ => rfl) ?_ (by simp [goto]) rfl
  · intro ds hmem
    simpa [goto, hcopy] using hmem
  · simpa [goto, hcopy] using hnodup
  · exact fun hne => absurd hentries hne
  · intro hne
    exact absurd (inv.queues_of_part.2.2 (by rw [hpc]; simp [IOLoopPc.part])) hne

theorem Inv.sound_asyncDone (inv : s.Inv) (hpc : s.pc = .phase .async)
    (hcopy : s.mCopyAsyncProcs = []) :
    Sound s { s.goto (.phase .after) with
      mCopyAfterLoopProcs := s.mAfterLoopProcs, mAfterLoopProcs := s.mCopyAfterLoopProcs } := by
  have hfrom : s.pc.socket? = none := by rw [hpc]; rfl
  have hafter : s.mCopyAfterLoopProcs = [] :=
    inv.queues_of_part.2.2 (by rw [hpc]; simp [IOLoopPc.part])
  refine inv.sound_of_same ?_ rfl rfl rfl (fun _ hmem => hmem) inv.refs.entering_nodup
    inv.refs.entries ?_ ?_ (fun _ => rfl) (by simp [goto]) rfl
  · intro ds
    rw [← connection_of_away (.phase .after) hfrom rfl ds]
    simp only [connection, goto, procsOf, historyOf, hafter, List.append_nil, List.nil_append]
  · intro hne
    exact absurd (inv.queues_of_part.1 (by rw [hpc]; simp [IOLoopPc.part])) hne
  · exact fun hne => absurd hcopy hne

theorem Inv.sound_runAsync (inv : s.Inv) {proc : AsyncProc} {procs : List AsyncProc}
    {linked : Bool} (hpc : s.pc = .phase .async) (hcopy : s.mCopyAsyncProcs = proc :: procs)
    (h : { s with mCopyAsyncProcs := procs }.runAsyncProc loopIndex linked proc = some s') :
    Sound s s' := by
  obtain ⟨hpop, hunique⟩ := inv.sound_popAsync hcopy
  have inv' := inv.sound hpop
  cases proc with
  | session caller sid op =>
      cases h
      exact hpop.trans (inv'.sound_runOp caller sid op)
  | enter ds =>
      obtain ⟨d, hd, hno⟩ := inv.refs.entering ds (by simp [hcopy])
      have hback : Returns { s with mCopyAsyncProcs := procs } (.userCode .async) :=
        ⟨by simp [hpc, IOLoopPc.part], by simp, by simp [hpc]⟩
      exact hpop.trans (inv'.sound_enter hd hno (hunique ds rfl) hback h)
  | user =>
      cases h
      obtain ⟨hentries, -, hafter⟩ := inv.queues_of_part
      refine hpop.trans (inv'.sound_goto_away (by rw [hpc]; rfl) rfl ?_ (fun _ => rfl) ?_)
      · exact fun hne => absurd (hentries (by rw [hpc]; simp [IOLoopPc.part])) hne
      · exact fun hne => absurd (hafter (by rw [hpc]; simp [IOLoopPc.part])) hne

theorem Inv.sound_runAfter (inv : s.Inv) {proc : LoopProc} {procs : List LoopProc}
    (hpc : s.pc = .phase .after) (hcopy : s.mCopyAfterLoopProcs = proc :: procs) :
    Sound s ((s.popped procs).runAfterProc proc) := by
  cases proc with
  | socket ds proc =>
      cases proc with
      | flush => exact inv.sound_flush hpc hcopy
      | shutdown => exact inv.sound_shutdown hpc hcopy
      | disConnect => exact inv.sound_disConnect hpc hcopy
  | user =>
      have hfrom : s.pc.socket? = none := by rw [hpc]; rfl
      refine inv.sound_of_same ?_ rfl rfl rfl (fun _ hmem => hmem) inv.refs.entering_nodup
        inv.refs.entries ?_ ?_ (fun _ => rfl) (by simp [runAfterProc, goto]) rfl
      · intro ds
        have hprocs : (s.popped procs).procsOf ds = s.procsOf ds := by
          rw [procsOf, procsOf, hcopy]
          rfl
        rw [runAfterProc, ← connection_of_away (.userCode .after) hfrom rfl ds]
        simp only [connection, goto]
        exact congrArg (Connection.mk _ · _ _ _ _) hprocs
      · intro hne
        exact absurd (inv.queues_of_part.1 (by rw [hpc]; simp [IOLoopPc.part])) hne
      · intro hne
        exact absurd (inv.queues_of_part.2.1 (by rw [hpc]; simp [IOLoopPc.part])) hne

/-! ## All steps -/

/-- The log of the `send` calls is not part of a connection. -/
theorem Inv.sound_sent (inv : s.Inv) (sent : List (Caller × SessionId × List UInt8)) :
    Sound s { s with sent := sent } :=
  inv.sound_of_same (fun _ => rfl) rfl rfl rfl (fun _ hmem => hmem) inv.refs.entering_nodup
    inv.refs.entries inv.refs.entries_part inv.refs.async_part inv.refs.after_part
    (fun _ hpc => hpc) rfl

theorem Inv.sound_userAdd (inv : s.Inv) {socket : Sock} {maxRecvBufferSize : ℕ} {linked : Bool}
    {mid : IOLoop} (hnew : s.newSocket malloc socket maxRecvBufferSize = some (ds, mid))
    (henter : mid.enter loopIndex ds linked mid.pc = some s') : Sound s s' := by
  obtain ⟨hsound, rfl, -, hpc, hcopy, hasync, d, hd, hno⟩ := inv.sound_newSocket hnew
  have hfresh : .enter s.nextPtr ∉ mid.mCopyAsyncProcs ++ mid.mAsyncProcs := by
    rw [hcopy, hasync]
    intro hmem
    obtain ⟨e, he, -⟩ := inv.refs.entering _ hmem
    exact absurd (inv.refs.lt_of_heap he) (lt_irrefl _)
  have hback : Returns mid mid.pc := ⟨rfl, fun _ hpc => hpc, fun _ => rfl⟩
  exact hsound.trans ((inv.sound hsound).sound_enter hd hno hfresh hback henter)

/-- The loop thread leaves a part of the turn whose queues are empty. -/
theorem Inv.sound_leave (inv : s.Inv) {p : LoopPhase} {pc : IOLoopPc} (hpc : s.pc = .phase p)
    (hto : pc.socket? = none) (hevents : p ≠ .events) (hasync : p ≠ .async)
    (hafter : p = .after → s.mCopyAfterLoopProcs = []) : Sound s (s.goto pc) := by
  obtain ⟨hentries, hcopyAsync, hcopyAfter⟩ := inv.queues_of_part
  have hpart : s.pc.part = p := by rw [hpc]; rfl
  rw [hpart] at hentries hcopyAsync hcopyAfter
  refine inv.sound_goto_away (by rw [hpc]; rfl) hto ?_ ?_ ?_
  · exact fun hne => absurd (hentries hevents) hne
  · exact fun hne => absurd (hcopyAsync hasync) hne
  · intro hne
    by_cases heq : p = .after
    · exact absurd (hafter heq) hne
    · exact absurd (hcopyAfter heq) hne

/-- **Simulation.**  Every step of the loop takes each connection through steps of
its own, keeps the references good and uses no deleted object. -/
theorem Inv.sound_next (inv : s.Inv) {action : IOLoopAction}
    (h : s.next malloc loopIndex action = some s') : Sound s s' := by
  cases inv.step_of_next h with
  | threadOp t sid op => exact inv.sound_pushAsync rfl _
  | threadAdd hnew => exact inv.sound_threadAdd hnew
  | threadProc => exact inv.sound_pushAsync rfl s.sent
  | poll hpc hreports _ => exact inv.sound_poll hpc hreports
  | entry hpc hentries => exact inv.sound_entry hpc hentries
  | entriesDone hpc hentries => exact inv.sound_entriesDone hpc hentries
  | call hpc => exact inv.sound_channelCall hpc
  | recvLeave hpc _ _ =>
      exact inv.sound_handling_goto (by rw [hpc]; rfl) (by rw [hpc]; rfl) rfl rfl
  | recvResult hpc hd htry _ => exact inv.sound_afterRecv hpc hd htry _
  | dataReturn proclen hpc hd => exact inv.sound_dataReturn proclen hpc hd
  | runAsync hpc hcopy hrun => exact inv.sound_runAsync hpc hcopy hrun
  | asyncDone hpc hcopy => exact inv.sound_asyncDone hpc hcopy
  | runAfter hpc hcopy => exact inv.sound_runAfter hpc hcopy
  | afterDone hpc hcopy => exact inv.sound_leave hpc rfl (by simp) (by simp) fun _ => hcopy
  | flushLeave hpc hd hlist => exact inv.sound_flushLeave hpc hd hlist
  | writev hpc hd _ hopen hvalid => exact inv.sound_afterWritev hpc hd hopen hvalid
  | writevNull _ _ _ _ => exact inv.sound_fault (by simp)
  | erase hpc => exact inv.sound_eraseTurn hpc
  | timer hpc hfire => exact inv.sound_fireTimer hpc hfire
  | userTimer hpc => exact inv.sound_leave hpc rfl (by simp) (by simp) (by simp)
  | timersDone hpc => exact inv.sound_leave hpc rfl (by simp) (by simp) (by simp)
  | userOp sid op _ =>
      have hsent := inv.sound_sent (logSend s.sent none sid op)
      exact hsent.trans ((inv.sound hsent).sound_runOp none sid op)
  | userAdd _ hnew henter => exact inv.sound_userAdd hnew henter
  | userAfter _ =>
      refine inv.sound_of_same ?_ rfl rfl rfl (fun _ hmem => hmem) inv.refs.entering_nodup
        inv.refs.entries inv.refs.entries_part inv.refs.async_part inv.refs.after_part
        (fun _ hpc => hpc) rfl
      intro ds
      simp [connection, procsOf, historyOf, LoopProc.of?]
  | completeStale _ _ => exact inv.sound_fault (by simp)
  | completeReturn hpc _ => exact inv.sound_completeReturn hpc
  | disConnectReturn hpc => exact inv.sound_disConnectReturn hpc
  | @codeReturn back hpc =>
      have hpart : (IOLoopPc.phase back).part = s.pc.part := by rw [hpc]; rfl
      refine inv.sound_goto_away (by rw [hpc]; rfl) rfl ?_ ?_ ?_
      all_goals rw [hpart]
      · exact inv.refs.entries_part
      · exact inv.refs.async_part
      · exact inv.refs.after_part

theorem inv_of_reachable (h : (system malloc loopIndex).Reachable s) : s.Inv := by
  refine h.invariant ?_ ?_
  · rintro s rfl
    exact inv_initial
  · intro s action s' _ inv hnext
    exact inv.sound (inv.sound_next hnext)

/-- A property of connections that holds at the start and that every step of a
connection keeps holds of every connection, in every reachable state. -/
theorem connection_invariant {I : Connection → Prop} (habsent : I .absent)
    (hstep : ∀ c c' : Connection, c.Wf → I c → c.Step c' → I c')
    (h : (system malloc loopIndex).Reachable s) (ds : Ptr) : I (s.connection ds) := by
  refine h.invariant (I := fun s => ∀ ds, I (s.connection ds)) ?_ ?_ ds
  · rintro s rfl ds
    exact habsent
  · intro s action s' hr hall hnext ds
    have inv := inv_of_reachable hr
    have hboth : (s'.connection ds).Wf ∧ I (s'.connection ds) := by
      refine Connection.Steps.preserve (I := fun c => c.Wf ∧ I c) ?_
        ((inv.sound_next hnext).steps ds) ⟨inv.wf ds, hall ds⟩
      rintro c c' ⟨hwf, hc⟩ hcstep
      exact ⟨hwf.step hcstep, hstep c c' hwf hc hcstep⟩
    exact hboth.2

end IOLoop

end Brynet
