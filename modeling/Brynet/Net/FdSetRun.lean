import Mathlib.Data.List.Induction
import Brynet.Lib.Custody
import Brynet.Lib.Keyed
import Brynet.Net.FdSet

/-!
# The set of descriptors is a finite map

Each operation finds the entry of its descriptor by a search from the front, so the list
of entries is used as a list of records whose key is the descriptor.  What is registered
for a descriptor can be read off the calls alone: the check types that were added for it
and neither deleted nor removed since.

The allocations succeed here.  An array of `2 ^ 31` entries is not to be had: its size
would be a negative `int`, which is more than `malloc` grants as a `size_t`.

`entry` is what the array says about a descriptor and `others` the rest of it.  The calls
change the one as a map would and leave the other (`entry_add`, `entry_del`,
`entry_remove`, `others_call`); `Tracks` compares both with the calls made so far.
-/

namespace Brynet

/-! ## Masks -/

namespace PollFd

/-- What `ox_fdset_add` does with the entry of its descriptor. -/
def merge (checkRead checkWrite : Bool) (pf : PollFd) : PollFd :=
  { pf with
    checkRead := pf.checkRead || checkRead
    checkWrite := pf.checkWrite || checkWrite }

theorem fd_merge (checkRead checkWrite : Bool) (pf : PollFd) :
    (pf.merge checkRead checkWrite).fd = pf.fd := rfl

theorem fd_clear (checkRead checkWrite : Bool) (pf : PollFd) :
    (pf.clear checkRead checkWrite).fd = pf.fd := rfl

variable {flags : PollFlags} {pf : PollFd} {i : ℕ}

theorem getElem_events (hi : i < 16) :
    (pf.events flags)[i] =
      ((pf.checkRead && flags.read[i]) || (pf.checkWrite && flags.write[i])) := by
  unfold events
  rw [BitVec.getElem_or]
  cases pf.checkRead <;> cases pf.checkWrite <;> simp

/-- The flags of the types are set. -/
theorem events_merge (checkRead checkWrite : Bool) :
    (pf.merge checkRead checkWrite).events flags =
      pf.events flags ||| PollFd.events flags { pf with checkRead, checkWrite } := by
  ext i hi
  rw [BitVec.getElem_or, getElem_events, getElem_events, getElem_events]
  simp only [merge, Bool.and_or_distrib_right]
  ac_rfl

/-- The flags of the types are cleared. -/
theorem events_clear (checkRead checkWrite : Bool) :
    (pf.clear checkRead checkWrite).events flags =
      pf.events flags &&& ~~~PollFd.events flags { pf with checkRead, checkWrite } := by
  ext i hi
  have hdisjoint : (flags.read[i] && flags.write[i]) = false := by
    rw [← BitVec.getElem_and, flags.disjoint]
    exact BitVec.getElem_zero hi
  rw [BitVec.getElem_and, BitVec.getElem_not, getElem_events, getElem_events, getElem_events]
  unfold clear
  -- A bit of one flag is not in the other.
  cases hread : flags.read[i] with
  | false => cases flags.write[i] <;> simp
  | true =>
      rw [hread, Bool.true_and] at hdisjoint
      simp [hdisjoint]

theorem events_eq_zero_iff : pf.events flags = 0 ↔ pf.isWatched = false := by
  unfold events isWatched
  refine BitVec.or_eq_zero_iff.trans (Iff.trans (and_congr ?_ ?_) Bool.or_eq_false_iff.symm)
  · cases pf.checkRead with
    | false => simp
    | true => simpa using flags.read_ne
  · cases pf.checkWrite with
    | false => simp
    | true => simpa using flags.write_ne

end PollFd
/-! ## The operations on the entry of a descriptor -/

namespace FdSet

variable {self : FdSet} {fd : Sock} {pf : PollFd}

def entry (self : FdSet) (fd : Sock) : Option PollFd := Keyed.lookup PollFd.fd fd self.pollFds

/-- The entries of the other descriptors. -/
def others (self : FdSet) (fd : Sock) : List PollFd := Keyed.others PollFd.fd fd self.pollFds

theorem findPollfd_eq_length_iff : self.findPollfd fd = self.pollFds.length ↔ fd ∉ self.fds := by
  refine ⟨?_, findPollfd_of_not_mem⟩
  rw [findPollfd, List.findIdx_eq_length]
  rintro hnone hmem
  obtain ⟨pf, hpf, rfl⟩ := List.mem_map.mp hmem
  simpa using hnone pf hpf

theorem getElem?_findPollfd : self.pollFds[self.findPollfd fd]? = self.entry fd :=
  List.find?_eq_getElem?_findIdx.symm

theorem pollFds_addWithin (checkRead checkWrite : Bool)
    (hroom : self.pollFds.length < self.limitSize) :
    (self.addWithin fd checkRead checkWrite).pollFds =
      if fd ∈ self.fds then Keyed.update PollFd.fd fd (PollFd.merge checkRead checkWrite) self.pollFds
      else self.pollFds ++ [{ fd := fd, checkRead, checkWrite }] := by
  unfold addWithin
  rw [dif_neg (not_le.mpr hroom)]
  by_cases hmem : fd ∈ self.fds
  · rw [if_neg (mt findPollfd_eq_length_iff.mp (not_not.mpr hmem)), if_pos hmem]
    rfl
  · rw [if_pos (findPollfd_of_not_mem hmem), if_neg hmem]

theorem pollFds_add (checkRead checkWrite : Bool) :
    (self.add true fd checkRead checkWrite).pollFds =
      if fd ∈ self.fds then Keyed.update PollFd.fd fd (PollFd.merge checkRead checkWrite) self.pollFds
      else self.pollFds ++ [{ fd := fd, checkRead, checkWrite }] := by
  have hwithin := self.within
  unfold add
  by_cases hfull : self.limitSize = self.pollFds.length
  · rw [if_pos hfull, pollFds_addWithin, fds_upstepPollfd, pollFds_upstepPollfd]
    simp only [upstepPollfd, if_pos]
    omega
  · rw [if_neg hfull, pollFds_addWithin]
    omega

theorem del_of_none (checkRead checkWrite : Bool) (h : self.entry fd = none) :
    self.del fd checkRead checkWrite = self := by
  rw [del, getElem?_findPollfd, h]

theorem pollFds_del (checkRead checkWrite : Bool) (h : self.entry fd = some pf) :
    (self.del fd checkRead checkWrite).pollFds =
      if (pf.clear checkRead checkWrite).isWatched then
        Keyed.update PollFd.fd fd (PollFd.clear checkRead checkWrite) self.pollFds
      else
        Keyed.remove PollFd.fd fd
          (Keyed.update PollFd.fd fd (PollFd.clear checkRead checkWrite) self.pollFds) := by
  rw [del, getElem?_findPollfd, h]
  simp only
  split
  · rfl
  · rfl

/-! What the three operations make of the entry, with one that has no types in its place if
there is none. -/

/-- What is registered for a descriptor. -/
def current (self : FdSet) (fd : Sock) : PollFd :=
  (self.entry fd).getD { fd := fd, checkRead := false, checkWrite := false }

theorem entry_eq_none_iff : self.entry fd = none ↔ fd ∉ self.fds := Keyed.lookup_eq_none_iff

theorem entry_add (checkRead checkWrite : Bool) :
    (self.add true fd checkRead checkWrite).entry fd =
      some ((self.current fd).merge checkRead checkWrite) := by
  rw [entry, pollFds_add, current]
  by_cases hmem : fd ∈ self.fds
  · obtain ⟨pf, hpf⟩ := Option.ne_none_iff_exists'.mp (mt entry_eq_none_iff.mp (not_not.mpr hmem))
    rw [if_pos hmem, Keyed.lookup_update (PollFd.fd_merge checkRead checkWrite)]
    unfold entry at hpf ⊢
    rw [hpf, Option.map_some, Option.getD_some]
  · rw [if_neg hmem, entry_eq_none_iff.mpr hmem]
    refine (Keyed.lookup_concat (k := fd) (l := self.pollFds) rfl hmem).trans ?_
    simp [PollFd.merge]

theorem entry_del (checkRead checkWrite : Bool) (hnodup : self.fds.Nodup) :
    (self.del fd checkRead checkWrite).entry fd =
      Option.guard PollFd.isWatched ((self.current fd).clear checkRead checkWrite) := by
  cases h : self.entry fd with
  | none => rw [del_of_none _ _ h, h, current, h]; rfl
  | some pf =>
      rw [entry, pollFds_del _ _ h, current, h, Option.getD_some]
      unfold entry at h
      by_cases hwatched : (pf.clear checkRead checkWrite).isWatched = true
      · rw [if_pos hwatched, Keyed.lookup_update (PollFd.fd_clear checkRead checkWrite), h,
          Option.guard, if_pos hwatched, Option.map_some]
      · rw [if_neg hwatched, Option.guard, if_neg hwatched]
        apply Keyed.lookup_remove
        rwa [Keyed.map_update (PollFd.fd_clear checkRead checkWrite)]

theorem entry_remove (hnodup : self.fds.Nodup) : (self.remove fd).entry fd = none :=
  Keyed.lookup_remove hnodup

theorem others_add (checkRead checkWrite : Bool) :
    (self.add true fd checkRead checkWrite).others fd = self.others fd := by
  rw [others, pollFds_add]
  split
  · exact Keyed.others_update (PollFd.fd_merge checkRead checkWrite)
  · exact Keyed.others_concat rfl

theorem others_del (checkRead checkWrite : Bool) :
    (self.del fd checkRead checkWrite).others fd = self.others fd := by
  cases h : self.entry fd with
  | none => rw [del_of_none _ _ h]
  | some pf =>
      rw [others, pollFds_del _ _ h]
      split
      · exact Keyed.others_update (PollFd.fd_clear checkRead checkWrite)
      · rw [Keyed.others_remove]
        exact Keyed.others_update (PollFd.fd_clear checkRead checkWrite)

theorem others_remove : (self.remove fd).others fd = self.others fd := Keyed.others_remove

theorem nodup_add (checkRead checkWrite : Bool) (h : self.fds.Nodup) :
    (self.add true fd checkRead checkWrite).fds.Nodup := by
  rw [fds, pollFds_add]
  by_cases hmem : fd ∈ self.fds
  · rw [if_pos hmem, Keyed.map_update (PollFd.fd_merge checkRead checkWrite)]
    exact h
  · rw [if_neg hmem, List.map_append, List.map_singleton, ← List.concat_eq_append]
    exact h.concat hmem

theorem nodup_del (checkRead checkWrite : Bool) (hnodup : self.fds.Nodup) :
    (self.del fd checkRead checkWrite).fds.Nodup := by
  cases h : self.entry fd with
  | none => rwa [del_of_none _ _ h]
  | some pf =>
      have hupdate : ((Keyed.update PollFd.fd fd (PollFd.clear checkRead checkWrite)
          self.pollFds).map PollFd.fd).Nodup := by
        rwa [Keyed.map_update (PollFd.fd_clear checkRead checkWrite)]
      rw [fds, pollFds_del _ _ h]
      split
      · exact hupdate
      · exact hupdate.sublist Keyed.map_remove_sublist

theorem nodup_remove (h : self.fds.Nodup) : (self.remove fd).fds.Nodup :=
  h.sublist Keyed.map_remove_sublist

end FdSet

/-! ## Calls -/

inductive CheckType
  | readCheck
  | writeCheck
deriving Repr, DecidableEq

/-- The check types in the argument of a call. -/
inductive CheckTypes
  | read
  | write
  | readWrite
deriving Repr, DecidableEq

def CheckTypes.has : CheckTypes → CheckType → Bool
  | read, .readCheck => true
  | write, .writeCheck => true
  | readWrite, _ => true
  | _, _ => false

inductive FdCall
  | add (fd : Sock) (types : CheckTypes)
  | del (fd : Sock) (types : CheckTypes)
  | remove (fd : Sock)
deriving Repr, DecidableEq

namespace FdCall

def fd : FdCall → Sock
  | add fd _ | del fd _ | remove fd => fd

/-- What a call does about a check type of a descriptor. -/
def act (key : Sock × CheckType) : FdCall → Option Custody.Act
  | add fd types => if fd = key.1 ∧ types.has key.2 then some .taken else none
  | del fd types => if fd = key.1 ∧ types.has key.2 then some .given else none
  | remove fd => if fd = key.1 then some .given else none

/-- Whether the check type was added for the descriptor, and neither deleted nor removed
since. -/
def isRegistered (calls : List FdCall) (fd : Sock) (check : CheckType) : Bool :=
  Custody.isHeld act (fd, check) calls

/-- The entry a descriptor should have, if it should have one. -/
def interest (calls : List FdCall) (fd : Sock) : PollFd where
  fd := fd
  checkRead := isRegistered calls fd .readCheck
  checkWrite := isRegistered calls fd .writeCheck

variable {calls : List FdCall} {c : FdCall} {fd : Sock} {types : CheckTypes}

theorem isRegistered_concat (check : CheckType) :
    isRegistered (calls ++ [c]) fd check =
      (act (fd, check) c).elim (isRegistered calls fd check) fun a => a = .taken :=
  Custody.isHeld_concat _ _ _

theorem interest_of_ne (h : fd ≠ c.fd) : interest (calls ++ [c]) fd = interest calls fd := by
  have hact : ∀ check, act (fd, check) c = none := by
    intro check
    cases c with
    | add other types => exact if_neg fun hboth => h hboth.1.symm
    | del other types => exact if_neg fun hboth => h hboth.1.symm
    | remove other => exact if_neg h.symm
  simp only [interest, isRegistered_concat, hact, Option.elim_none]

theorem interest_add : interest (calls ++ [add fd types]) fd =
    (interest calls fd).merge (types.has .readCheck) (types.has .writeCheck) := by
  simp only [interest, isRegistered_concat, act, PollFd.merge]
  cases types <;> simp [CheckTypes.has]

theorem interest_del : interest (calls ++ [del fd types]) fd =
    (interest calls fd).clear (types.has .readCheck) (types.has .writeCheck) := by
  simp only [interest, isRegistered_concat, act, PollFd.clear]
  cases types <;> simp [CheckTypes.has]

theorem interest_remove : interest (calls ++ [remove fd]) fd =
    { fd := fd, checkRead := false, checkWrite := false } := by
  simp [interest, isRegistered_concat, act]

end FdCall

namespace FdSet

variable {self : FdSet} {fd : Sock} {pf : PollFd} {calls : List FdCall}

/-- A call whose allocation succeeds. -/
def call (self : FdSet) : FdCall → FdSet
  | .add fd types => self.add true fd (types.has .readCheck) (types.has .writeCheck)
  | .del fd types => self.del fd (types.has .readCheck) (types.has .writeCheck)
  | .remove fd => self.remove fd

/-- The list is the map of what is registered. -/
structure Tracks (s : FdSet) (calls : List FdCall) : Prop where
  nodup : s.fds.Nodup
  entry_eq : ∀ fd, s.entry fd = Option.guard PollFd.isWatched (FdCall.interest calls fd)

theorem tracks_new : (new true).Tracks [] where
  nodup := List.nodup_nil
  entry_eq _ := rfl

/-- Without a watched entry nothing is registered. -/
theorem Tracks.current_eq (h : self.Tracks calls) (fd : Sock) :
    self.current fd = FdCall.interest calls fd := by
  rw [current, h.entry_eq]
  -- Without an entry both say that there is no check type.
  by_cases hwatched : (FdCall.interest calls fd).isWatched = true
  · simp [Option.guard, hwatched]
  · obtain ⟨hread, hwrite⟩ := Bool.or_eq_false_iff.mp (Bool.eq_false_of_not_eq_true hwatched)
    rw [Option.guard, if_neg hwatched, Option.getD_none]
    exact congrArg₂ (PollFd.mk fd) hread.symm hwrite.symm

theorem others_call (c : FdCall) : (self.call c).others c.fd = self.others c.fd := by
  cases c with
  | add fd types => exact others_add _ _
  | del fd types => exact others_del _ _
  | remove fd => exact others_remove

theorem nodup_call (h : self.fds.Nodup) (c : FdCall) : (self.call c).fds.Nodup := by
  cases c with
  | add fd types => exact nodup_add _ _ h
  | del fd types => exact nodup_del _ _ h
  | remove fd => exact nodup_remove h

theorem Tracks.entry_call (h : self.Tracks calls) (c : FdCall) :
    (self.call c).entry c.fd =
      Option.guard PollFd.isWatched (FdCall.interest (calls ++ [c]) c.fd) := by
  cases c with
  | add fd types =>
      rw [call, FdCall.fd, entry_add, h.current_eq, FdCall.interest_add, Option.guard, if_pos]
      cases types <;> simp [PollFd.isWatched, PollFd.merge, CheckTypes.has]
  | del fd types => rw [call, FdCall.fd, entry_del _ _ h.nodup, h.current_eq, FdCall.interest_del]
  | remove fd =>
      rw [call, FdCall.fd, entry_remove h.nodup, FdCall.interest_remove]
      rfl

theorem Tracks.call (h : self.Tracks calls) (c : FdCall) :
    (self.call c).Tracks (calls ++ [c]) where
  nodup := nodup_call h.nodup c
  entry_eq := by
    intro fd
    -- The entry of the descriptor in question, and those of the others, which are the same.
    by_cases hfd : fd = c.fd
    · rw [hfd]
      exact h.entry_call c
    · rw [FdCall.interest_of_ne hfd, ← h.entry_eq]
      exact Keyed.lookup_of_others hfd (others_call c)

theorem tracks_calls (calls : List FdCall) : (calls.foldl FdSet.call (new true)).Tracks calls := by
  -- The last call is taken off, as it is the one that has been recorded last.
  induction calls using List.reverseRecOn with
  | nil => exact tracks_new
  | append_singleton calls c ih =>
      rw [List.foldl_append]
      exact ih.call c

theorem Tracks.mem_iff (h : self.Tracks calls) :
    pf ∈ self.pollFds ↔ pf.isWatched = true ∧ pf = FdCall.interest calls pf.fd := by
  rw [← Keyed.lookup_eq_some_iff h.nodup]
  change self.entry pf.fd = some pf ↔ _
  rw [h.entry_eq, Option.guard_eq_some_iff]
  constructor
  · rintro ⟨heq, hwatched⟩
    exact ⟨heq ▸ hwatched, heq.symm⟩
  · rintro ⟨hwatched, heq⟩
    exact ⟨heq.symm, heq ▸ hwatched⟩

theorem Tracks.mem_fds_iff (h : self.Tracks calls) :
    fd ∈ self.fds ↔ ∃ check, FdCall.isRegistered calls fd check = true := by
  have hentry : fd ∈ self.fds ↔ (FdCall.interest calls fd).isWatched = true := by
    rw [← not_iff_not, ← entry_eq_none_iff, h.entry_eq, Option.guard_eq_none_iff,
      Bool.not_eq_true]
  rw [hentry, PollFd.isWatched, Bool.or_eq_true]
  constructor
  · rintro (hread | hwrite)
    · exact ⟨.readCheck, hread⟩
    · exact ⟨.writeCheck, hwrite⟩
  · rintro ⟨check, hcheck⟩
    cases check with
    | readCheck => exact .inl hcheck
    | writeCheck => exact .inr hcheck

/-! ## The visitor -/

theorem visitFrom_eq (event : ℕ → Bool) (result : List Sock) (i : ℕ) (l : List PollFd) :
    visitFrom event result i l =
      result ++ ((l.zipIdx i).filter fun e => event e.2).map fun e => e.1.fd := by
  induction l generalizing result i with
  | nil => simp [visitFrom]
  | cons pf rest ih =>
      rw [visitFrom, ih, List.zipIdx_cons]
      cases hevent : event i with
      | false => simp [hevent]
      | true => simp [hevent]

theorem fds_eq_zipIdx (self : FdSet) : self.fds = self.pollFds.zipIdx.map fun e => e.1.fd := by
  calc self.fds = (self.pollFds.zipIdx.map Prod.fst).map PollFd.fd := by
        rw [List.zipIdx_map_fst]
        rfl
    _ = self.pollFds.zipIdx.map fun e => e.1.fd := List.map_map

/-- The visitor pushes the descriptors of the entries with the event, in their order. -/
theorem visitor_spec (self : FdSet) (event : ℕ → Bool) (result : List Sock) :
    ∃ pushed : List Sock, self.visitor event result = result ++ pushed ∧
      pushed.Sublist self.fds ∧
      ∀ fd, fd ∈ pushed ↔ ∃ i, self.fds[i]? = some fd ∧ event i = true := by
  refine ⟨_, visitFrom_eq event result 0 self.pollFds, ?_, ?_⟩
  · rw [fds_eq_zipIdx]
    exact List.filter_sublist.map _
  · intro fd
    simp only [List.mem_map, List.mem_filter, Prod.exists, List.mk_mem_zipIdx_iff_getElem?, fds,
      List.getElem?_map, Option.map_eq_some_iff]
    constructor
    · rintro ⟨pf, i, ⟨hpf, hevent⟩, rfl⟩
      exact ⟨i, ⟨pf, hpf, rfl⟩, hevent⟩
    · rintro ⟨i, ⟨pf, hpf, rfl⟩, hevent⟩
      exact ⟨pf, i, ⟨hpf, hevent⟩, rfl⟩

/-- **The set of descriptors is a finite map.**  After any calls the entries have different
descriptors, those for which a check type is registered, and the mask of an entry is that of
the registered types.  A call leaves the entries of other descriptors as they are and in
their order.  After `poll` the visitor pushes each descriptor whose entry has a returned event
of the requested types once, in the order of the entries. -/
theorem fdset_refines_map (flags : PollFlags) (calls : List FdCall) :
    let self := calls.foldl FdSet.call (new true)
    self.fds.Nodup ∧ self.pollFds.length ≤ self.limitSize ∧
    (∀ fd, fd ∈ self.fds ↔ ∃ check, FdCall.isRegistered calls fd check = true) ∧
    (∀ pf ∈ self.pollFds,
      pf.events flags =
        (if FdCall.isRegistered calls pf.fd .readCheck then flags.read else 0) |||
          (if FdCall.isRegistered calls pf.fd .writeCheck then flags.write else 0)) ∧
    (∀ c : FdCall, (self.call c).others c.fd = self.others c.fd) ∧
    (∀ (checkRead checkWrite checkError : Bool) (revents : ℕ → BitVec 16) (result : List Sock),
      let event := fun i => checkEvent flags checkRead checkWrite checkError (revents i)
      ∃ pushed : List Sock, self.visitor event result = result ++ pushed ∧
        pushed.Sublist self.fds ∧ pushed.Nodup ∧
        ∀ fd, fd ∈ pushed ↔ ∃ i, self.fds[i]? = some fd ∧ event i = true) := by
  intro self
  have htracks : self.Tracks calls := tracks_calls calls
  refine ⟨htracks.nodup, self.within, fun fd => htracks.mem_fds_iff, ?_, others_call, ?_⟩
  · intro pf hpf
    rw [(htracks.mem_iff.mp hpf).2]
    rfl
  · intro checkRead checkWrite checkError revents result event
    obtain ⟨pushed, hvisit, hsublist, hmem⟩ := visitor_spec self event result
    exact ⟨pushed, hvisit, hsublist, htracks.nodup.sublist hsublist, hmem⟩

end FdSet

end Brynet
