import Brynet.Lib.Transition
import Brynet.Utils.TypeIDS
import Brynet.Net.DataSocket

/-!
# The session table of an IO loop

`IOLoopData` keeps the sockets of one loop in a `TypeIDS`, and `MakeID` packs
the claimed id into the 16 bits of `SessionId.index`.  The ids of `TypeIDS` are
unbounded, so the packing drops bits once the table has more than `2 ^ 16`
slots.  Because a block of `growNum` ids is handed out from its top, that
happens with the first claim from the block that crosses the field width: the
table has 65500 slots before it, and the claim returns 65599.

`sessions_ok_iff_few` says that this is the only way to lose a session: the
table is right in every state of a run exactly when the run never has more than
65500 sessions open at once.
-/

namespace Brynet

open Transition

/-- A `DataSocket*`: the objects of a run are numbered, so that an address that
`new` hands out again is another pointer. -/
abbrev Ptr := ℕ

/-- The fields of `IOLoopData` that the session functions use. -/
structure IOLoopData where
  mDataSockets : TypeIDS Ptr
  mNextId : ℕ
deriving Repr, DecidableEq

namespace IOLoopData

def empty : IOLoopData := ⟨.empty, 0⟩

/-- `TcpService::MakeID`, with `claimID` and `incID`; `none` is the exception. -/
def makeID (loopIndex : ℕ) (data : IOLoopData) : Option (SessionId × IOLoopData) :=
  data.mDataSockets.claimID.map fun (id, sockets) =>
    ({ loopIndex := UInt16.ofNat loopIndex
       index := UInt16.ofNat id
       iid := UInt32.ofNat data.mNextId },
     { mDataSockets := sockets, mNextId := data.mNextId + 1 })

/-- `getDataSockets().set(ds, sid.data.index)`. -/
def setSocket (data : IOLoopData) (ds : Option Ptr) (sid : SessionId) : IOLoopData :=
  { data with mDataSockets := data.mDataSockets.set ds sid.index.toNat }

/-- `TcpService::procDataSocketClose` for a socket whose user data is `sid`. -/
def procDataSocketClose (data : IOLoopData) (sid : SessionId) : IOLoopData :=
  let data := data.setSocket none sid
  { data with mDataSockets := data.mDataSockets.reclaimID sid.index.toNat }

/-- The lookup of `postSessionAsyncProc` and `IOLoopData::send`: the socket in
the slot of `sid`, if its user data is `sid`. -/
def find (data : IOLoopData) (getUD : Ptr → Option SessionId) (sid : SessionId) : Option Ptr :=
  match data.mDataSockets.get sid.index.toNat with
  | some (some ds) => if getUD ds = some sid then some ds else none
  | _ => none

end IOLoopData

/-- The table of one loop with its open sessions, newest first: each `DataSocket`
with the id `MakeID` returned for it, which is its user data. -/
structure SessionTable where
  data : IOLoopData
  sessions : List (Ptr × SessionId)
deriving Repr, DecidableEq

/-- A socket enters the loop, or its disconnect closure runs. -/
inductive SessionAction
  | enter (ds : Ptr)
  | close (ds : Ptr)
deriving Repr, DecidableEq

namespace SessionTable

def empty : SessionTable := ⟨.empty, []⟩

/-- The slot index of a session. -/
def slot (session : Ptr × SessionId) : ℕ := session.2.index.toNat

/-- The indices of the open sessions. -/
def slots (t : SessionTable) : List ℕ := t.sessions.map slot

/-- The user data of an open session's socket. -/
def getUD (t : SessionTable) (ds : Ptr) : Option SessionId := t.sessions.lookup ds

/-- The table part of the enter callback of `helpAddChannel`. -/
def enter (loopIndex : ℕ) (t : SessionTable) (ds : Ptr) : Option SessionTable :=
  (t.data.makeID loopIndex).map fun (sid, data) =>
    ⟨data.setSocket (some ds) sid, (ds, sid) :: t.sessions⟩

/-- The table part of the disconnect closure of the session `(ds, sid)`. -/
def close (t : SessionTable) (ds : Ptr) (sid : SessionId) : SessionTable :=
  ⟨t.data.procDataSocketClose sid, t.sessions.erase (ds, sid)⟩

def next (loopIndex : ℕ) (t : SessionTable) : SessionAction → Option SessionTable
  | .enter ds => if (t.getUD ds).isNone then t.enter loopIndex ds else none
  | .close ds => (t.getUD ds).map (t.close ds)

def system (loopIndex : ℕ) : System SessionTable SessionAction where
  init t := t = empty
  next := next loopIndex

/-- Every open session is in the slot its id names, so that an operation on the
id finds it; no two share one, the free list has no duplicates, and it names no
open session. -/
structure Ok (t : SessionTable) : Prop where
  found : ∀ session ∈ t.sessions,
    t.data.mDataSockets.get (slot session) = some (some session.1)
  addressed : ∀ session ∈ t.sessions, t.data.find t.getUD session.2 = some session.1
  slots_nodup : t.slots.Nodup
  free_nodup : t.data.mDataSockets.mIds.Nodup
  free_disjoint : ∀ session ∈ t.sessions, slot session ∉ t.data.mDataSockets.mIds

/-- The largest number of sessions the table can index: the last whole number of
blocks within the 16 bits of an index. -/
def capacity : ℕ := 65500

variable {loopIndex : ℕ} {t t' : SessionTable} {ds : Ptr} {sid : SessionId}

/-! ## The invariant below the capacity -/

/-- While no id is truncated the slots of the open sessions are the claimed ids. -/
structure Inv (t : SessionTable) : Prop where
  partition : t.data.mDataSockets.Partition t.slots
  found : ∀ session ∈ t.sessions,
    t.data.mDataSockets.get (slot session) = some (some session.1)
  sockets_nodup : (t.sessions.map Prod.fst).Nodup
  blocks : TypeIDS.growNum ∣ t.data.mDataSockets.mValues.length
  size_le : t.data.mDataSockets.mValues.length ≤ capacity

/-- With one session a socket, the user data of a socket is its session's id. -/
theorem lookup_of_mem {sessions : List (Ptr × SessionId)}
    (hnodup : (sessions.map Prod.fst).Nodup) {session : Ptr × SessionId}
    (hmem : session ∈ sessions) : sessions.lookup session.1 = some session.2 := by
  induction sessions with
  | nil => simp at hmem
  | cons head rest ih =>
      rw [List.map_cons, List.nodup_cons] at hnodup
      rcases List.mem_cons.mp hmem with rfl | hrest
      · exact List.lookup_cons_self
      · have hne : session.1 ≠ head.1 := by
          intro heq
          exact hnodup.1 (heq ▸ List.mem_map_of_mem hrest)
        rw [List.lookup_cons, beq_false_of_ne hne]
        exact ih hnodup.2 hrest

theorem Inv.ok (inv : t.Inv) : t.Ok := by
  obtain ⟨hfree, hslots, hdisjoint⟩ := List.nodup_append.mp inv.partition.nodup
  refine ⟨inv.found, ?_, hslots, hfree, ?_⟩
  · intro session hsession
    have hget : t.data.mDataSockets.get session.2.index.toNat = some (some session.1) :=
      inv.found session hsession
    have hud : t.getUD session.1 = some session.2 := lookup_of_mem inv.sockets_nodup hsession
    simp only [IOLoopData.find, hget, hud, if_true]
  · intro session hsession hmem
    exact hdisjoint _ hmem _ (List.mem_map_of_mem hsession) rfl

theorem inv_empty : empty.Inv :=
  ⟨TypeIDS.partition_empty, by simp [empty], List.nodup_nil,
    by simp [empty, IOLoopData.empty, TypeIDS.empty], Nat.zero_le _⟩

/-- What `enter` does, by the id that `claimID` returns. -/
theorem enter_spec (h : t.enter loopIndex ds = some t') :
    ∃ id sockets, t.data.mDataSockets.claimID = some (id, sockets) ∧
      t'.data.mDataSockets = sockets.set (some ds) (UInt16.ofNat id).toNat ∧
      ∃ sid : SessionId, sid.index = UInt16.ofNat id ∧ t'.sessions = (ds, sid) :: t.sessions := by
  simp only [enter, IOLoopData.makeID, Option.map_eq_some_iff] at h
  obtain ⟨_, ⟨⟨id, sockets⟩, hclaim, rfl⟩, rfl⟩ := h
  exact ⟨id, sockets, hclaim, rfl, _, rfl, rfl⟩

/-- Claiming while fewer than `capacity` sessions are open keeps the table within
the capacity: it grows only when all its slots are taken. -/
theorem Inv.size_claimID (inv : t.Inv) (hroom : t.sessions.length < capacity) {id : ℕ}
    {sockets : TypeIDS Ptr} (hclaim : t.data.mDataSockets.claimID = some (id, sockets)) :
    TypeIDS.growNum ∣ sockets.mValues.length ∧ sockets.mValues.length ≤ capacity := by
  obtain ⟨id₀, sockets₀, hclaim₀, -, hmValues⟩ := t.data.mDataSockets.claimID_spec
  rw [hclaim₀, Option.some.injEq, Prod.mk.injEq] at hclaim
  obtain ⟨rfl, rfl⟩ := hclaim
  have hlength := inv.partition.length_add
  have hslots : t.slots.length = t.sessions.length := List.length_map _
  obtain ⟨blocks, hblocks⟩ := inv.blocks
  rw [hmValues]
  split
  · rename_i hempty
    rw [List.isEmpty_iff] at hempty
    rw [hempty, List.length_nil] at hlength
    simp only [TypeIDS.increase, List.length_append, List.length_replicate]
    refine ⟨(Nat.dvd_add_right inv.blocks).mpr (Nat.dvd_refl _), ?_⟩
    unfold capacity TypeIDS.growNum at *
    omega
  · exact ⟨inv.blocks, inv.size_le⟩

theorem Inv.enter (inv : t.Inv) (hroom : t.sessions.length < capacity)
    (hfresh : ∀ session ∈ t.sessions, session.1 ≠ ds) (h : t.enter loopIndex ds = some t') : t'.Inv := by
  obtain ⟨id, sockets, hclaim, hsockets, sid, hindex, hsessions⟩ := enter_spec h
  obtain ⟨hblocks, hsize⟩ := inv.size_claimID hroom hclaim
  have hpartition := inv.partition.claimID hclaim
  have hlt : id < sockets.mValues.length := hpartition.lt_of_mem (List.mem_cons_self ..)
  have hexact : (UInt16.ofNat id).toNat = id := by
    unfold capacity at hsize
    rw [UInt16.toNat_ofNat']
    omega
  rw [hexact] at hsockets
  have hslot : slot (ds, sid) = id := by
    rw [slot, hindex, hexact]
  refine ⟨?_, ?_, ?_, ?_, ?_⟩
  · rw [hsockets, slots, hsessions, List.map_cons, hslot]
    exact hpartition.set _ _
  · intro session hsession
    rw [hsockets]
    rw [hsessions] at hsession
    rcases List.mem_cons.mp hsession with rfl | hold
    · rw [hslot]
      exact TypeIDS.get_set_self hlt
    · have hne : slot session ≠ id := by
        have hfresh : id ∉ t.slots :=
          (List.nodup_cons.mp (List.nodup_append.mp hpartition.nodup).2.1).1
        intro heq
        exact hfresh (heq ▸ List.mem_map_of_mem hold)
      rw [TypeIDS.get_set_of_ne hne]
      exact TypeIDS.get_claimID hclaim (inv.found session hold)
  · rw [hsessions, List.map_cons, List.nodup_cons]
    refine ⟨?_, inv.sockets_nodup⟩
    rw [List.mem_map]
    rintro ⟨session, hsession, heq⟩
    exact hfresh session hsession heq
  · rw [hsockets]
    simpa [TypeIDS.set] using hblocks
  · rw [hsockets]
    simpa [TypeIDS.set] using hsize

theorem Inv.close (inv : t.Inv) (hmem : (ds, sid) ∈ t.sessions) : (t.close ds sid).Inv := by
  have hperm : t.slots.Perm (slot (ds, sid) :: (t.close ds sid).slots) :=
    (List.perm_cons_erase hmem).map slot
  have hkeys : ((t.close ds sid).sessions.map Prod.fst).Nodup :=
    inv.sockets_nodup.sublist ((List.erase_sublist ..).map _)
  refine ⟨(inv.partition.set none _).reclaimID hperm, ?_, hkeys, ?_, ?_⟩
  · intro session hsession
    have hne : slot session ≠ slot (ds, sid) := by
      have hnodup := hperm.nodup_iff.mp inv.ok.slots_nodup
      intro heq
      exact (List.nodup_cons.mp hnodup).1 (heq ▸ List.mem_map_of_mem hsession)
    calc (t.close ds sid).data.mDataSockets.get (slot session)
        = (t.data.mDataSockets.set none (slot (ds, sid))).get (slot session) := rfl
      _ = t.data.mDataSockets.get (slot session) := TypeIDS.get_set_of_ne hne
      _ = some (some session.1) := inv.found session (List.mem_of_mem_erase hsession)
  · simpa [SessionTable.close, IOLoopData.procDataSocketClose, IOLoopData.setSocket,
      TypeIDS.reclaimID, TypeIDS.set] using inv.blocks
  · simpa [SessionTable.close, IOLoopData.procDataSocketClose, IOLoopData.setSocket,
      TypeIDS.reclaimID, TypeIDS.set] using inv.size_le

theorem fresh_of_getUD (h : (t.getUD ds).isNone = true) :
    ∀ session ∈ t.sessions, session.1 ≠ ds := by
  rw [Option.isNone_iff_eq_none, getUD, List.lookup_eq_none_iff] at h
  intro session hsession heq
  simpa [heq] using h session hsession

theorem mem_sessions_of_getUD (h : t.getUD ds = some sid) : (ds, sid) ∈ t.sessions := by
  unfold getUD at h
  obtain ⟨_, _, hsplit, -⟩ := List.lookup_eq_some_iff.mp h
  rw [hsplit]
  simp

/-- A step either enters one more session or closes one. -/
theorem Inv.next (inv : t.Inv) {action : SessionAction}
    (hnext : t.next loopIndex action = some t') (hroom : t'.sessions.length ≤ capacity) :
    t'.Inv := by
  cases action with
  | enter ds =>
      simp only [SessionTable.next, Option.ite_none_right_eq_some] at hnext
      obtain ⟨hfresh, henter⟩ := hnext
      obtain ⟨_, _, -, -, _, -, hsessions⟩ := enter_spec henter
      rw [hsessions, List.length_cons] at hroom
      exact inv.enter hroom (fresh_of_getUD hfresh) henter
  | close ds =>
      simp only [SessionTable.next, Option.map_eq_some_iff] at hnext
      obtain ⟨sid, hsid, rfl⟩ := hnext
      exact inv.close (mem_sessions_of_getUD hsid)

/-! ## The first session beyond the capacity -/

/-- With all 65500 slots taken, `claimID` returns 65599, which the index field
truncates to 63, the index of an open session. -/
theorem Inv.not_ok_of_full (inv : t.Inv) (hfull : t.sessions.length = capacity)
    (h : t.enter loopIndex ds = some t') : ¬ t'.Ok := by
  obtain ⟨id, sockets, hclaim, -, sid, hindex, hsessions⟩ := enter_spec h
  have hlength := inv.partition.length_add
  have hslots : t.slots.length = t.sessions.length := List.length_map _
  have hsize := inv.size_le
  have hempty : t.data.mDataSockets.mIds = [] := by
    apply List.eq_nil_of_length_eq_zero
    omega
  have hvalues : t.data.mDataSockets.mValues.length = capacity := by
    rw [hempty, List.length_nil] at hlength
    omega
  have hid : id = 65599 := by
    obtain ⟨id₀, sockets₀, hclaim₀, hmIds, -⟩ := t.data.mDataSockets.claimID_spec
    rw [hclaim₀, Option.some.injEq, Prod.mk.injEq] at hclaim
    obtain ⟨rfl, rfl⟩ := hclaim
    have hlast : (sockets₀.mIds ++ [id₀]).getLast? = some 65599 := by
      rw [hmIds, hempty]
      simp only [List.isEmpty_nil, if_true, TypeIDS.increase, hempty, hvalues]
      rfl
    simpa using hlast
  have hslot : slot (ds, sid) = 63 := by
    rw [slot, hindex, hid]
    rfl
  have htaken : 63 ∈ t.slots := by
    have hmem : 63 ∈ t.data.mDataSockets.mIds ++ t.slots := by
      rw [inv.partition.mem_iff, List.mem_range, hvalues]
      decide
    simpa [hempty] using hmem
  intro hok
  have hnodup := hok.slots_nodup
  rw [slots, hsessions, List.map_cons, hslot] at hnodup
  exact (List.nodup_cons.mp hnodup).1 htaken

/-! ## Runs -/

/-- The states that a run of `actions` visits. -/
def Visits (loopIndex : ℕ) (actions : List SessionAction) (t : SessionTable) : Prop :=
  ∃ pre, pre <+: actions ∧ (system loopIndex).run empty pre = some t

/-- A run that visits no state with more than `capacity` sessions keeps the
invariant. -/
theorem inv_of_run (actions : List SessionAction)
    (hfew : ∀ t, Visits loopIndex actions t → t.sessions.length ≤ capacity) :
    ∀ t, (system loopIndex).run empty actions = some t → t.Inv := by
  induction actions using List.reverseRecOn with
  | nil =>
      intro t hrun
      cases hrun
      exact inv_empty
  | append_singleton actions action ih =>
      intro t hrun
      have hvisits : Visits loopIndex (actions ++ [action]) t := ⟨_, List.prefix_refl _, hrun⟩
      rw [System.run_concat, Option.bind_eq_some_iff] at hrun
      obtain ⟨before, hbefore, hnext⟩ := hrun
      have hinv : before.Inv := by
        refine ih ?_ before hbefore
        rintro t ⟨pre, hpre, hrun⟩
        exact hfew t ⟨pre, hpre.trans (List.prefix_append _ _), hrun⟩
      exact hinv.next hnext (hfew t hvisits)

/-- **Session-table invariant.**  The table is right in every state of a run
exactly when the run never has more than 65500 sessions open at once. -/
theorem sessions_ok_iff_few (loopIndex : ℕ) (actions : List SessionAction) :
    (∀ t, Visits loopIndex actions t → t.Ok) ↔
      ∀ t, Visits loopIndex actions t → t.sessions.length ≤ 65500 := by
  constructor
  · intro hok
    -- Induction on the run: the first state beyond the capacity comes from an
    -- `enter` in a full table, where the invariant still holds.
    induction actions using List.reverseRecOn with
    | nil =>
        rintro t ⟨pre, hpre, hrun⟩
        rw [List.prefix_nil] at hpre
        subst hpre
        cases hrun
        exact Nat.zero_le _
    | append_singleton actions action ih =>
        have hfew : ∀ t, Visits loopIndex actions t → t.sessions.length ≤ 65500 := by
          apply ih
          rintro t ⟨pre, hpre, hrun⟩
          exact hok t ⟨pre, hpre.trans (List.prefix_append _ _), hrun⟩
        rintro t ⟨pre, hpre, hrun⟩
        rcases List.prefix_concat_iff.mp hpre with rfl | hpre
        · have hthis : t.Ok := hok t ⟨_, List.prefix_refl _, hrun⟩
          rw [System.run_concat, Option.bind_eq_some_iff] at hrun
          obtain ⟨before, hbefore, hnext⟩ := hrun
          have hinv := inv_of_run actions hfew before hbefore
          have hle := hfew before ⟨_, List.prefix_refl _, hbefore⟩
          cases action with
          | enter ds =>
              simp only [system, SessionTable.next, Option.ite_none_right_eq_some] at hnext
              obtain ⟨-, henter⟩ := hnext
              obtain ⟨_, _, -, -, _, -, hsessions⟩ := enter_spec henter
              rw [hsessions, List.length_cons]
              by_contra hmore
              have hfull : before.sessions.length = capacity := by
                unfold capacity
                omega
              exact hinv.not_ok_of_full hfull henter hthis
          | close ds =>
              simp only [system, SessionTable.next, Option.map_eq_some_iff] at hnext
              obtain ⟨sid, -, rfl⟩ := hnext
              exact List.length_erase_le.trans hle
        · exact hfew t ⟨pre, hpre, hrun⟩
  · rintro hfew t ⟨pre, hpre, hrun⟩
    refine (inv_of_run pre ?_ t hrun).ok
    rintro t' ⟨pre', hpre', hrun'⟩
    exact hfew t' ⟨pre', hpre'.trans hpre, hrun'⟩

/-- `n` sockets enter, one after the other. -/
def enters (n : ℕ) : List SessionAction := (List.range n).map .enter

/-- A socket that has no session yet can always enter. -/
theorem exists_enter (loopIndex : ℕ) (hfresh : ∀ session ∈ t.sessions, session.1 ≠ ds) :
    ∃ t', t.next loopIndex (.enter ds) = some t' ∧ t.enter loopIndex ds = some t' := by
  obtain ⟨id, sockets, hclaim, -, -⟩ := t.data.mDataSockets.claimID_spec
  have hnone : (t.getUD ds).isNone = true := by
    rw [Option.isNone_iff_eq_none, getUD, List.lookup_eq_none_iff]
    intro session hsession
    simpa using (hfresh session hsession).symm
  simp only [SessionTable.next, hnone, if_true, and_self, SessionTable.enter,
    IOLoopData.makeID, hclaim, Option.map_some]
  exact ⟨_, rfl⟩

/-- Up to the capacity, `n` entering sockets get `n` sessions. -/
theorem run_enters (loopIndex n : ℕ) (hn : n ≤ capacity) :
    ∃ t, (system loopIndex).run empty (enters n) = some t ∧ t.Inv ∧ t.sessions.length = n ∧
      ∀ session ∈ t.sessions, session.1 < n := by
  induction n with
  | zero => exact ⟨empty, rfl, inv_empty, rfl, by simp [empty]⟩
  | succ n ih =>
      obtain ⟨t, hrun, hinv, hlength, hbound⟩ := ih (by omega)
      have hfresh : ∀ session ∈ t.sessions, session.1 ≠ n :=
        fun session hsession => (hbound session hsession).ne
      obtain ⟨t', hnext, henter⟩ := exists_enter loopIndex hfresh
      obtain ⟨_, _, -, -, sid, -, hsessions⟩ := enter_spec henter
      refine ⟨t', ?_, hinv.enter (by omega) hfresh henter, by simp [hsessions, hlength], ?_⟩
      · rw [enters, List.range_succ, List.map_append]
        exact (System.run_concat _ _ _).trans (by rw [← enters, hrun]; exact hnext)
      · intro session hsession
        rw [hsessions] at hsession
        rcases List.mem_cons.mp hsession with rfl | hold
        · exact Nat.lt_succ_self n
        · exact (hbound session hold).trans (Nat.lt_succ_self n)

/-- The 65501st session to be open at once takes the index of another one. -/
theorem sessions_not_ok_when_65501 :
    ∃ t, (system 0).run empty (enters 65501) = some t ∧ ¬ t.Ok := by
  obtain ⟨t, hrun, hinv, hlength, hbound⟩ := run_enters 0 65500 (Nat.le_refl _)
  obtain ⟨t', hnext, henter⟩ :=
    exists_enter 0 fun session hsession => (hbound session hsession).ne
  refine ⟨t', ?_, hinv.not_ok_of_full hlength henter⟩
  rw [enters, List.range_succ, List.map_append]
  exact (System.run_concat _ _ _).trans (by rw [← enters, hrun]; exact hnext)

end SessionTable

end Brynet
