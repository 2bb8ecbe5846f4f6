import Brynet.Net.DataSocket

/-!
# `fdset_s`

The set of descriptors that is given to `poll`: an array that grows by `malloc` and
keeps the order in which descriptors were added.  `nfds` is the length of the list.
`malloc` says whether the allocation of a call succeeds, if it makes one; an `add`
that finds no room does nothing.
-/

namespace Brynet

structure PollFd where
  fd : Sock
  checkRead : Bool
  checkWrite : Bool
deriving Repr, DecidableEq

/-- `CHECK_READ_FLAG`, `CHECK_WRITE_FLAG` and `CHECK_ERROR_FLAG`.  Which bits they have
depends on the platform, but the first two have none in common. -/
structure PollFlags where
  read : BitVec 16
  write : BitVec 16
  error : BitVec 16
  read_ne : read ≠ 0
  write_ne : write ≠ 0
  disjoint : read &&& write = 0

namespace PollFlags

def linux : PollFlags where
  read := 0x001 ||| 0x040 ||| 0x080 ||| 0x002
  write := 0x004 ||| 0x100 ||| 0x200
  error := 0x008 ||| 0x010
  read_ne := by decide
  write_ne := by decide
  disjoint := by decide

def windows : PollFlags where
  read := 0x300 ||| 0x100 ||| 0x200
  write := 0x010 ||| 0x010
  error := 0x001 ||| 0x002
  read_ne := by decide
  write_ne := by decide
  disjoint := by decide

end PollFlags

namespace PollFd

/-- The field of this name.  As the flags have no bit in common, it is known by which of
them are set. -/
def events (flags : PollFlags) (pf : PollFd) : BitVec 16 :=
  (if pf.checkRead then flags.read else 0) ||| (if pf.checkWrite then flags.write else 0)

/-- `events &= ~CHECK_READ_FLAG` and so on. -/
def clear (checkRead checkWrite : Bool) (pf : PollFd) : PollFd :=
  { pf with
    checkRead := pf.checkRead && !checkRead
    checkWrite := pf.checkWrite && !checkWrite }

/-- `events != 0`. -/
def isWatched (pf : PollFd) : Bool := pf.checkRead || pf.checkWrite

end PollFd

structure FdSet where
  pollFds : List PollFd
  limitSize : ℕ
  within : pollFds.length ≤ limitSize
deriving DecidableEq

namespace FdSet

def upstepPollfd (self : FdSet) (malloc : Bool) (upSize : ℕ) : FdSet :=
  if malloc then
    { self with limitSize := self.limitSize + upSize, within := Nat.le_add_right_of_le self.within }
  else self

def new (malloc : Bool) : FdSet :=
  upstepPollfd { pollFds := [], limitSize := 0, within := Nat.le_refl 0 } malloc 1024

/-- The index of the entry, or `nfds`. -/
def findPollfd (self : FdSet) (fd : Sock) : ℕ := self.pollFds.findIdx fun pf => pf.fd = fd

/-- The rest of `ox_fdset_add`, after the array was made to grow if it was full. -/
def addWithin (self : FdSet) (fd : Sock) (checkRead checkWrite : Bool) : FdSet :=
  if h : self.limitSize ≤ self.pollFds.length then self
  else if self.findPollfd fd = self.pollFds.length then
    { self with
      pollFds := self.pollFds ++ [{ fd, checkRead, checkWrite }]
      within := by
        rw [List.length_append]
        exact Nat.lt_of_not_le h }
  else
    { self with
      pollFds := self.pollFds.modify (self.findPollfd fd) fun pf =>
        { pf with
          checkRead := pf.checkRead || checkRead
          checkWrite := pf.checkWrite || checkWrite }
      within := by simpa using self.within }

/-- `ox_fdset_add` with the types to check. -/
def add (self : FdSet) (malloc : Bool) (fd : Sock) (checkRead checkWrite : Bool) : FdSet :=
  if self.limitSize = self.pollFds.length then
    (self.upstepPollfd malloc 128).addWithin fd checkRead checkWrite
  else self.addWithin fd checkRead checkWrite

/-- `ox_fdset_remove`, which is `TryRemovePollFd`. -/
def remove (self : FdSet) (fd : Sock) : FdSet :=
  { self with
    pollFds := self.pollFds.eraseP fun pf => pf.fd = fd
    within := (List.length_eraseP_le).trans self.within }

/-- `ox_fdset_del` with the types that are no longer to be checked. -/
def del (self : FdSet) (fd : Sock) (checkRead checkWrite : Bool) : FdSet :=
  match self.pollFds[self.findPollfd fd]? with
  | none => self
  | some pf =>
      let self' : FdSet :=
        { self with
          pollFds := self.pollFds.modify (self.findPollfd fd) (PollFd.clear checkRead checkWrite)
          within := by simpa using self.within }
      if (pf.clear checkRead checkWrite).isWatched then self' else self'.remove fd

/-- `check_event` for the types, with the events that `poll` returned for the entry. -/
def checkEvent (flags : PollFlags) (checkRead checkWrite checkError : Bool)
    (revents : BitVec 16) : Bool :=
  if checkRead && revents &&& flags.read ≠ 0 then true
  else if checkWrite && revents &&& flags.write ≠ 0 then true
  else if checkError && revents &&& flags.error ≠ 0 then true
  else false

/-- The loop of `ox_fdset_visitor` from entry `i` on, with what `check_event` says of each
entry.  `result` is the stack. -/
def visitFrom (event : ℕ → Bool) (result : List Sock) (i : ℕ) : List PollFd → List Sock
  | [] => result
  | pf :: rest => visitFrom event (if event i then result ++ [pf.fd] else result) (i + 1) rest

/-- `ox_fdset_visitor`. -/
def visitor (self : FdSet) (event : ℕ → Bool) (result : List Sock) : List Sock :=
  visitFrom event result 0 self.pollFds

/-- The descriptors that are registered. -/
def fds (self : FdSet) : List Sock := self.pollFds.map PollFd.fd

variable {self : FdSet} {fd : Sock}

@[simp]
theorem fds_new (malloc : Bool) : (new malloc).fds = [] := by
  cases malloc <;> rfl

theorem findPollfd_of_not_mem (h : fd ∉ self.fds) : self.findPollfd fd = self.pollFds.length := by
  rw [findPollfd, List.findIdx_eq_length]
  intro pf hpf
  have hne : pf.fd ≠ fd := fun heq => h (heq ▸ List.mem_map_of_mem hpf)
  simpa using hne

theorem pollFds_upstepPollfd (malloc : Bool) (upSize : ℕ) :
    (self.upstepPollfd malloc upSize).pollFds = self.pollFds := by
  cases malloc <;> rfl

theorem fds_upstepPollfd (malloc : Bool) (upSize : ℕ) :
    (self.upstepPollfd malloc upSize).fds = self.fds := by
  rw [fds, fds, pollFds_upstepPollfd]

theorem fds_addWithin (checkRead checkWrite : Bool) (h : fd ∉ self.fds) :
    (self.addWithin fd checkRead checkWrite).fds =
      if self.limitSize ≤ self.pollFds.length then self.fds else self.fds ++ [fd] := by
  unfold addWithin
  by_cases hfull : self.limitSize ≤ self.pollFds.length
  · rw [dif_pos hfull, if_pos hfull]
  · rw [dif_neg hfull, if_neg hfull, if_pos (findPollfd_of_not_mem h)]
    simp [fds]

/-- A new descriptor is registered at the end, unless the array is full and cannot grow. -/
theorem fds_add (malloc checkRead checkWrite : Bool) (h : fd ∉ self.fds) :
    (self.add malloc fd checkRead checkWrite).fds = self.fds ++ [fd] ∨
      malloc = false ∧ (self.add malloc fd checkRead checkWrite).fds = self.fds := by
  unfold add
  by_cases hfull : self.limitSize = self.pollFds.length
  · rw [if_pos hfull, fds_addWithin _ _ (by rwa [fds_upstepPollfd]), fds_upstepPollfd,
      pollFds_upstepPollfd]
    cases malloc with
    | false => simp [upstepPollfd, hfull]
    | true => simp [upstepPollfd, hfull]
  · have hroom : ¬self.limitSize ≤ self.pollFds.length := by
      have := self.within
      omega
    rw [if_neg hfull, fds_addWithin _ _ h, if_neg hroom]
    exact .inl rfl

theorem fds_remove (fd : Sock) : (self.remove fd).fds = self.fds.erase fd := by
  have htest : (fun pf : PollFd => decide (pf.fd = fd)) = (fd == ·) ∘ PollFd.fd := by
    funext pf
    rw [Bool.eq_iff_iff]
    simpa using eq_comm
  simp only [fds, remove, List.erase_eq_eraseP, List.eraseP_map, htest]

end FdSet

end Brynet
