import Brynet.Net.FlushAgree

/-!
# A flush against a willing kernel

Every system call takes all it is offered and returns that number.  One would expect
the send list to be empty afterwards.  It is not when a call is offered no bytes, which
an empty packet at the wrong place brings about: `quickFlush` takes the zero that
`writev` returns for a failure and looks at an `errno` that nobody has set, and
`normalFlush` leaves its loop.  Nor is it when a call is offered `2 ^ 31` bytes or more,
whose number does not fit into the `int` that receives it.

`Drainable` says which lists are spared.  The functions cut a list into batches; behind a
batch the erase loop also removes the empty packets that follow, so only the first batch
can be empty.

The result has two halves.  `drains_iff_manages` follows the turns of a function and
asks of each batch that it has a number of bytes between 1 and `2 ^ 31 - 1`
(`Manages`).  `manages_iff_drainable` is about lists only: it says the same of the
packets, for each of the two ways of cutting a list.
-/

namespace Brynet

open MachineInt

/-- A kernel that takes all bytes.  What the functions see of the number it returns is
its conversion to `int`; if that is not positive they look at `errno`, which holds
`EWOULDBLOCK` or something else from before. -/
def willingKernel (errnoBlocks : Bool) : Kernel Unit := fun _ wanted =>
  (if 0 < toInt32 wanted then .accepted (toInt32 wanted).toNat
    else if errnoBlocks then .wouldBlock else .error, ())

/-- The batches that `writev` is offered, `MAX_IOVEC` packets each.  Behind a batch the
empty packets are erased with it. -/
def writevBatches (packets : List PendingPacket) : List (List PendingPacket) :=
  if packets = [] then []
  else
    packets.take DataSocket.maxIovec ::
      writevBatches ((packets.drop DataSocket.maxIovec).dropWhile fun packet => packet.left == 0)
termination_by packets.length
decreasing_by
  rename_i hne
  have hdrop := (List.dropWhile_suffix
    (fun packet : PendingPacket => packet.left == 0) (l := packets.drop DataSocket.maxIovec)).length_le
  have hpos := List.length_pos_iff.mpr hne
  rw [List.length_drop] at hdrop
  simp only [DataSocket.maxIovec] at hdrop ⊢
  omega

namespace FlushPath

/-- The lists that a flush empties.  For `quickFlush` one of the first `MAX_IOVEC`
packets must have bytes; for `normalFlush` the first packet must, or the first packet that
has bytes must fit into the buffer.  No call may want to send `2 ^ 31` bytes. -/
def Drainable : FlushPath → List PendingPacket → Prop
  | _, [] => True
  | quick, packets =>
      (∃ packet ∈ packets.take DataSocket.maxIovec, 0 < packet.left) ∧
        ∀ batch ∈ writevBatches packets, leftSum batch < 2 ^ 31
  | normal, front :: rest =>
      (0 < front.left ∨ ∃ packet, rest.find? (fun packet => 0 < packet.left) = some packet ∧
        packet.left ≤ DataSocket.sendbufSize) ∧
      ∀ packet ∈ front :: rest, packet.left < 2 ^ 31

/-- The packets behind a batch, without the empty ones at their front. -/
def behind (path : FlushPath) (packets : List PendingPacket) : List PendingPacket :=
  (packets.drop (path.batch packets).length).dropWhile fun packet => packet.left == 0

/-- Every batch has bytes, and fewer than `2 ^ 31`. -/
inductive Manages (path : FlushPath) : List PendingPacket → Prop
  | nil : Manages path []
  | batch {packets : List PendingPacket} (hne : packets ≠ [])
      (hpos : 0 < leftSum (path.batch packets)) (hsmall : leftSum (path.batch packets) < 2 ^ 31)
      (hbehind : Manages path (path.behind packets)) : Manages path packets

variable {path : FlushPath} {packets : List PendingPacket}

theorem manages_iff (hne : packets ≠ []) : path.Manages packets ↔
    0 < leftSum (path.batch packets) ∧ leftSum (path.batch packets) < 2 ^ 31 ∧
      path.Manages (path.behind packets) := by
  constructor
  · intro h
    cases h with
    | nil => contradiction
    | batch _ hpos hsmall hbehind => exact ⟨hpos, hsmall, hbehind⟩
  · rintro ⟨hpos, hsmall, hbehind⟩
    exact .batch hne hpos hsmall hbehind

theorem leaves_of_pos {ds : DataSocket} (hne : ds.mSendList ≠ []) (hpos : 0 < path.wanted ds) :
    path.leaves ds = false := by
  cases path with
  | quick => simpa [leaves] using hne
  | normal =>
      have hwait : ds.waitSend ≠ [] := List.length_pos_iff.mp hpos
      simp [leaves, hne, hwait]

end FlushPath

variable {packets : List PendingPacket}

/-! ## A turn -/

/-- Erasing the bytes of a batch erases the batch, and the empty packets behind it. -/
theorem packets_eraseLoop_append (batch rest : List PendingPacket) (removed : ℕ)
    (fired : List ℕ) : (eraseLoop (leftSum batch) removed fired (batch ++ rest)).packets =
      rest.dropWhile fun packet => packet.left == 0 := by
  induction batch generalizing removed fired with
  | nil =>
      show (eraseLoop 0 removed fired rest).packets = _
      induction rest generalizing removed fired with
      | nil => rfl
      | cons packet rest ih =>
          unfold eraseLoop
          split
          next hpos => simp [hpos.ne']
          next hzero =>
            have hleft : packet.left = 0 := Nat.eq_zero_of_not_pos hzero
            rw [hleft, ih]
            simp [hleft]
  | cons packet batch ih =>
      rw [List.cons_append, leftSum_cons]
      unfold eraseLoop
      rw [if_neg (by omega), Nat.add_sub_cancel_left]
      exact ih _ _

theorem packets_eraseLoop_batch (path : FlushPath) (packets : List PendingPacket) (removed : ℕ)
    (fired : List ℕ) :
    (eraseLoop (leftSum (path.batch packets)) removed fired packets).packets =
      path.behind packets := by
  obtain ⟨rest, hrest⟩ := path.batch_isPrefix packets
  have hdrop : rest = packets.drop (path.batch packets).length := by
    have hdropped := congrArg (List.drop (path.batch packets).length) hrest
    rwa [List.drop_left] at hdropped
  have hpackets := packets_eraseLoop_append (path.batch packets) rest removed fired
  rw [hrest] at hpackets
  rw [hpackets, FlushPath.behind, ← hdrop]

theorem leftSum_take_le (m : ℕ) (packets : List PendingPacket) :
    leftSum (packets.take m) ≤ leftSum (packets.take (m + 1)) := by
  obtain ⟨rest, hrest⟩ : packets.take m <+: packets.take (m + 1) :=
    List.take_prefix_take_left (Nat.le_succ m)
  rw [← hrest, leftSum_append]
  exact Nat.le_add_right _ _

/-- Erasing takes no more than its bytes from the front packets. -/
theorem leftSum_take_eraseLoop (m n removed : ℕ) (fired : List ℕ) (packets : List PendingPacket) :
    leftSum (packets.take m) - n ≤
      leftSum ((eraseLoop n removed fired packets).packets.take m) := by
  induction packets generalizing n removed fired with
  | nil => simp [eraseLoop, leftSum]
  | cons packet rest ih =>
      cases m with
      | zero => simp [leftSum]
      | succ m =>
          unfold eraseLoop
          split
          next => simp only [List.take_succ_cons, leftSum_cons]; omega
          next =>
            have hmono := leftSum_take_le m rest
            have hrest := ih (n - packet.left) (removed + 1)
              (fired ++ if packet.mCompleteCallback then [removed] else [])
            simp only [List.take_succ_cons, leftSum_cons]
            omega

namespace Flush

variable {path : FlushPath} {errnoBlocks : Bool} {s s' : Flush}

/-- What the caller of a flush sees at its end: an empty list, an open socket, and the
complete callbacks of all packets called in order. -/
structure Drained (s s' : Flush) : Prop where
  sendList : s'.ds.mSendList = []
  opened : s'.ds.mSocket.isSome = true
  fired : s'.fired = (eraseLoop (leftSum s.ds.mSendList) s.removed s.fired s.ds.mSendList).fired

/-- The flush from `s` on ends drained. -/
def Drains (path : FlushPath) (errnoBlocks : Bool) (s : Flush) : Prop :=
  ∃ s', Ends path (willingKernel errnoBlocks) ((), s) s' ∧ Drained s s'

/-- A flush that ends with packets in the list has not drained it. -/
theorem not_drains_of_done {n : ℕ}
    (hrun : (step path (willingKernel errnoBlocks))^[n] ((), s) = ((), s'))
    (hdone : s'.pc = .done) (hlist : s'.ds.mSendList ≠ []) : ¬Drains path errnoBlocks s := by
  rintro ⟨s'', hends, hdrained⟩
  have heq := (ends_iff_eq (ends_of_done hdone)).mp ((ends_of_iterate hrun).mp hends)
  exact hlist (heq ▸ hdrained.sendList)

/-- A turn after which the flush goes on. -/
theorem drains_advanced {n count : ℕ}
    (hrun : (step path (willingKernel errnoBlocks))^[n] ((), s) = ((), s'))
    (hds : s'.ds = { s.ds with
      mSendList := (eraseLoop count s.removed s.fired s.ds.mSendList).packets })
    (hremoved : s'.removed = (eraseLoop count s.removed s.fired s.ds.mSendList).removed)
    (hfired : s'.fired = (eraseLoop count s.removed s.fired s.ds.mSendList).fired)
    (hcount : count ≤ leftSum s.ds.mSendList) :
    Drains path errnoBlocks s ↔ Drains path errnoBlocks s' := by
  have hleft := leftSum_eraseLoop count s.removed s.fired s.ds.mSendList
  have hloop := eraseLoop_add count (leftSum s.ds.mSendList - count) s.removed s.fired s.ds.mSendList
  rw [Nat.add_sub_cancel' hcount, ← hleft] at hloop
  refine exists_congr fun t => and_congr (ends_of_iterate hrun) ?_
  constructor
  · rintro ⟨hlist, hopen, hcalled⟩
    refine ⟨hlist, hopen, ?_⟩
    rw [hcalled, hloop, hds, hremoved, hfired]
  · rintro ⟨hlist, hopen, hcalled⟩
    refine ⟨hlist, hopen, ?_⟩
    rw [hcalled, hloop, hds, hremoved, hfired]

/-- A call that shows no bytes is the last one, and it erases nothing. -/
theorem not_drains_of_shown (hpc : s.pc = .turn) (hne : s.ds.mSendList ≠ [])
    (hleaves : path.leaves s.ds = false) (hshown : ¬0 < toInt32 (path.wanted s.ds)) :
    ¬Drains path errnoBlocks s := by
  have hstep : (step path (willingKernel errnoBlocks))^[1] ((), s) =
      ((), s.afterSend path (if errnoBlocks then .wouldBlock else .error)) := by
    simp [step, hpc, hleaves, willingKernel, hshown]
  refine not_drains_of_done hstep ?_ ?_
  · cases errnoBlocks <;> rfl
  · cases errnoBlocks with
    | true => exact hne
    | false => exact (mSendList_procCloseInLoop s.ds).symm ▸ hne

/-- A call that shows `count` bytes, of which the erase loop makes use. -/
theorem iterate_shown (hpc : s.pc = .turn) (hleaves : path.leaves s.ds = false) {count : ℕ}
    (hshown : toInt32 (path.wanted s.ds) = count) (hpos : 0 < count) :
    ∃ n, (step path (willingKernel errnoBlocks))^[n] ((), s) = ((),
      (erased { s with accepted := s.accepted ++ (path.offered s.ds).take count }
        count).afterErase (path.full s.ds count)) := by
  apply iterate_turn hpc hleaves
  have hcount : 0 < toInt32 (path.wanted s.ds) := by
    rw [hshown]
    exact_mod_cast hpos
  simp only [willingKernel, if_pos hcount]
  rw [hshown, Int.toNat_natCast]

/-- Between `2 ^ 31` and `2 ^ 32` the `int` is not positive, and beyond it shows only
what is left of the bytes modulo `2 ^ 32`. -/
theorem shown_of_large {wanted : ℕ} (h : 2 ^ 31 ≤ wanted) (hshown : 0 < toInt32 wanted) :
    ∃ count : ℕ, toInt32 wanted = count ∧ 0 < count ∧ count < 2 ^ 31 ∧ 2 ^ 32 + count ≤ wanted := by
  unfold toInt32 at hshown ⊢
  split at hshown
  next hlow =>
    refine ⟨wanted % 2 ^ 32, by rw [if_pos hlow], by omega, hlow, ?_⟩
    have hmod := Nat.div_add_mod wanted (2 ^ 32)
    have hdiv : 1 ≤ wanted / 2 ^ 32 := by omega
    omega
  next => omega

/-- An empty batch is the end of the flush. -/
theorem not_drains_of_empty (hpc : s.pc = .turn) (hne : s.ds.mSendList ≠ [])
    (hzero : path.wanted s.ds = 0) : ¬Drains path errnoBlocks s := by
  cases path with
  | quick =>
      have hleaves : FlushPath.quick.leaves s.ds = false := by simpa [FlushPath.leaves] using hne
      exact not_drains_of_shown hpc hne hleaves (by rw [hzero]; decide)
  | normal =>
      have hwait : s.ds.waitSend = [] := List.length_eq_zero_iff.mp hzero
      have hleaves : FlushPath.normal.leaves s.ds = true := by simp [FlushPath.leaves, hwait]
      have hstep : (step .normal (willingKernel errnoBlocks))^[1] ((), s) =
          ((), { s with pc := .done }) := by
        simp [step, hpc, hleaves]
      exact not_drains_of_done hstep rfl hne

/-- A turn that shows all its bytes and goes on with the list behind its batch. -/
theorem drains_turn (hpc : s.pc = .turn) (hleaves : path.leaves s.ds = false)
    (hle : LeftLe s.ds.mSendList) {count : ℕ} (hshown : toInt32 (path.wanted s.ds) = count)
    (hpos : 0 < count) (hcount : count ≤ path.wanted s.ds)
    (hfull : path.full s.ds count = true) :
    ∃ s' : Flush, s'.pc = .turn ∧ s'.ds.mSocket = s.ds.mSocket ∧
      s'.ds.mSendList = (eraseLoop count s.removed s.fired s.ds.mSendList).packets ∧
      (Drains path errnoBlocks s ↔ Drains path errnoBlocks s') := by
  obtain ⟨n, hn⟩ := @iterate_shown path errnoBlocks s hpc hleaves count hshown hpos
  rw [hfull] at hn
  exact ⟨(erased { s with accepted := s.accepted ++ (path.offered s.ds).take count }
    count).afterErase true, rfl, rfl, rfl,
    drains_advanced hn rfl rfl rfl (hcount.trans (path.wanted_le hle))⟩

/-- For `quickFlush` the sum of the lengths wraps around in the same way. -/
theorem full_of_shown {count : ℕ} (hle : LeftLe s.ds.mSendList)
    (hshown : toInt32 (FlushPath.quick.wanted s.ds) = count) (hsmall : count < 2 ^ 31) :
    FlushPath.quick.full s.ds count = true := by
  have hready : s.ds.readySendLen = toInt32 (FlushPath.quick.wanted s.ds) := by
    rw [FlushPath.quick.wanted_eq hle]
    rfl
  simp only [FlushPath.full, hready, hshown, toInt32_eq hsmall, decide_true]

/-- What is left of a batch that was too large is too large again. -/
theorem not_manages_of_large {count removed : ℕ} {fired : List ℕ} (hle : LeftLe s.ds.mSendList)
    (hrest : 2 ^ 32 + count ≤ FlushPath.quick.wanted s.ds) :
    ¬FlushPath.quick.Manages (eraseLoop count removed fired s.ds.mSendList).packets := by
  have htake := leftSum_take_eraseLoop DataSocket.maxIovec count removed fired s.ds.mSendList
  have hwanted : FlushPath.quick.wanted s.ds =
      leftSum (s.ds.mSendList.take DataSocket.maxIovec) := FlushPath.quick.wanted_eq hle
  have hne : (eraseLoop count removed fired s.ds.mSendList).packets ≠ [] := by
    intro hnil
    rw [hnil, List.take_nil, ← hwanted] at htake
    have hzero : leftSum [] = 0 := rfl
    omega
  intro h
  have hsmall : leftSum ((eraseLoop count removed fired s.ds.mSendList).packets.take
      DataSocket.maxIovec) < 2 ^ 31 := ((FlushPath.manages_iff hne).mp h).2.1
  omega

/-- `normalFlush` compares with the number itself, and stops. -/
theorem not_drains_of_cut {count : ℕ} (hpc : s.pc = .turn)
    (hleaves : FlushPath.normal.leaves s.ds = false) (hle : LeftLe s.ds.mSendList)
    (hshown : toInt32 (FlushPath.normal.wanted s.ds) = count) (hpos : 0 < count)
    (hcut : count < FlushPath.normal.wanted s.ds) : ¬Drains .normal errnoBlocks s := by
  obtain ⟨n, hn⟩ := @iterate_shown .normal errnoBlocks s hpc hleaves count hshown hpos
  have hfull : FlushPath.normal.full s.ds count = false := decide_eq_false hcut.ne
  rw [hfull] at hn
  refine not_drains_of_done hn rfl ?_
  show (eraseLoop count s.removed s.fired s.ds.mSendList).packets ≠ []
  intro hnil
  have hleft := leftSum_eraseLoop count s.removed s.fired s.ds.mSendList
  have hwanted := FlushPath.normal.wanted_le hle
  rw [hnil] at hleft
  simp only [leftSum, List.map_nil, List.sum_nil] at hleft hwanted
  omega

/-- **A flush against a willing kernel** drains the lists that `Manages` admits, and no
others.  The induction is on the bytes that are left. -/
theorem drains_iff_manages (hpc : s.pc = .turn) (hopen : s.ds.mSocket.isSome = true)
    (hle : LeftLe s.ds.mSendList) :
    Drains path errnoBlocks s ↔ path.Manages s.ds.mSendList := by
  induction hm : leftSum s.ds.mSendList using Nat.strong_induction_on generalizing s with
  | _ m ih =>
    by_cases hempty : s.ds.mSendList = []
    · have hleaves : path.leaves s.ds = true := by cases path <;> simp [FlushPath.leaves, hempty]
      have hstep : (step path (willingKernel errnoBlocks))^[1] ((), s) =
          ((), { s with pc := .done }) := by
        simp [step, hpc, hleaves]
      have hdrained : Drained s { s with pc := .done } :=
        ⟨hempty, hopen, by rw [hempty]; rfl⟩
      exact iff_of_true ⟨_, (ends_of_iterate hstep).mpr (ends_of_done rfl), hdrained⟩
        (hempty ▸ .nil)
    · rw [FlushPath.manages_iff hempty, ← path.wanted_eq hle]
      have hwanted := path.wanted_le hle
      rcases Nat.eq_zero_or_pos (path.wanted s.ds) with hzero | hpos
      -- The call is offered no bytes.
      · exact iff_of_false (not_drains_of_empty hpc hempty hzero) fun h => absurd hzero h.1.ne'
      · have hleaves := FlushPath.leaves_of_pos hempty hpos
        rcases Nat.lt_or_ge (path.wanted s.ds) (2 ^ 31) with hsmall | hlarge
        · -- The batch goes out whole.
          obtain ⟨s', hpc', hsocket, hlist, hiff⟩ := @drains_turn path errnoBlocks s hpc hleaves hle
            (path.wanted s.ds) (toInt32_eq hsmall) hpos le_rfl
            (by rw [path.full_eq hle hsmall le_rfl, decide_eq_true rfl])
          have hleft := leftSum_eraseLoop (path.wanted s.ds) s.removed s.fired s.ds.mSendList
          have hbehind := packets_eraseLoop_batch path s.ds.mSendList s.removed s.fired
          rw [hiff, @ih (m - path.wanted s.ds) (by omega) s' hpc' (hsocket ▸ hopen)
            (hlist ▸ hle.eraseLoop _ _ _) (by rw [hlist, hleft, hm]), hlist]
          rw [← path.wanted_eq hle] at hbehind
          rw [hbehind]
          exact ⟨fun h => ⟨hpos, hsmall, h⟩, fun h => h.2.2⟩
        -- The number does not fit into the `int`, so some of the batch is taken to be unsent.
        · refine iff_of_false ?_ fun h => absurd h.2.1 (Nat.not_lt.mpr hlarge)
          by_cases hshown : 0 < toInt32 (path.wanted s.ds)
          · obtain ⟨count, hcount, hcpos, hcsmall, hrest⟩ := shown_of_large hlarge hshown
            have hleft := leftSum_eraseLoop count s.removed s.fired s.ds.mSendList
            cases path with
            | quick =>
                obtain ⟨s', hpc', hsocket, hlist, hiff⟩ := @drains_turn .quick errnoBlocks s hpc hleaves hle
                  count hcount hcpos (by omega) (full_of_shown hle hcount hcsmall)
                rw [hiff, @ih (m - count) (by omega) s' hpc' (hsocket ▸ hopen)
                  (hlist ▸ hle.eraseLoop _ _ _) (by rw [hlist, hleft, hm]), hlist]
                exact not_manages_of_large hle hrest
            | normal => exact not_drains_of_cut hpc hleaves hle hcount hcpos (by omega)
          · exact not_drains_of_shown hpc hempty hleaves hshown

end Flush

/-! ## The condition -/

theorem leftSum_pos_iff : 0 < leftSum packets ↔ ∃ packet ∈ packets, 0 < packet.left := by
  induction packets with
  | nil => simp [leftSum]
  | cons packet rest ih =>
      simp only [leftSum_cons, List.mem_cons, exists_eq_or_imp, ← ih]
      omega

theorem left_le_leftSum {packet : PendingPacket} (h : packet ∈ packets) :
    packet.left ≤ leftSum packets := by
  obtain ⟨first, rest, rfl⟩ := List.append_of_mem h
  rw [leftSum_append, leftSum_cons]
  omega

/-- The buffer of `normalFlush` holds no more than its size. -/
theorem leftSum_mergeBatch_le {waitSendSize : ℕ} (h : waitSendSize ≤ DataSocket.sendbufSize)
    (packets : List PendingPacket) :
    waitSendSize + leftSum (mergeBatch waitSendSize packets) ≤ DataSocket.sendbufSize := by
  induction packets generalizing waitSendSize with
  | nil => exact h
  | cons packet rest ih =>
      unfold mergeBatch
      split
      next => exact h
      next hfits =>
        have hrest := ih (Nat.le_of_not_lt hfits)
        rw [leftSum_cons]
        omega

/-- The first packet with bytes goes into the empty buffer if it fits. -/
theorem leftSum_mergeBatch_pos (packets : List PendingPacket) :
    0 < leftSum (mergeBatch 0 packets) ↔
      ∃ packet, packets.find? (fun packet => 0 < packet.left) = some packet ∧
        packet.left ≤ DataSocket.sendbufSize := by
  induction packets with
  | nil => simp [mergeBatch, leftSum]
  | cons packet rest ih =>
      unfold mergeBatch
      rw [Nat.zero_add]
      by_cases hpos : 0 < packet.left
      · rw [List.find?_cons_of_pos (by simpa using hpos)]
        split
        next hlarge =>
          refine iff_of_false (by simp [leftSum]) ?_
          rintro ⟨_, heq, hle⟩
          cases heq
          omega
        next hfits =>
          refine iff_of_true ?_ ⟨packet, rfl, Nat.le_of_not_lt hfits⟩
          rw [leftSum_cons]
          omega
      · have hzero : packet.left = 0 := Nat.eq_zero_of_not_pos hpos
        rw [List.find?_cons_of_neg (by simpa using hzero), hzero, if_neg (Nat.not_lt_zero _),
          leftSum_cons, hzero, Nat.zero_add]
        exact ih

namespace FlushPath

/-- The list behind a batch is shorter. -/
theorem length_behind_lt (path : FlushPath) (h : packets ≠ []) :
    (path.behind packets).length < packets.length := by
  have hbatch := List.length_pos_iff.mpr (path.batch_ne_nil h)
  have hpackets := List.length_pos_iff.mpr h
  have hdrop := (List.dropWhile_suffix (fun packet : PendingPacket => packet.left == 0)
    (l := packets.drop (path.batch packets).length)).length_le
  rw [List.length_drop] at hdrop
  unfold behind
  omega

/-- Behind a batch the list starts with a packet that has bytes. -/
theorem head_behind (path : FlushPath) (packets : List PendingPacket) {packet : PendingPacket}
    (h : (path.behind packets).head? = some packet) : 0 < packet.left := by
  have hhead := List.head?_dropWhile_not (fun packet : PendingPacket => packet.left == 0)
    (packets.drop (path.batch packets).length)
  unfold behind at h
  rw [h] at hhead
  simpa [Nat.pos_iff_ne_zero] using hhead

/-- The batch of such a list has bytes. -/
theorem batch_pos_of_head (path : FlushPath) {front : PendingPacket} {rest : List PendingPacket}
    (h : 0 < front.left) : 0 < leftSum (path.batch (front :: rest)) := by
  obtain ⟨behind, hbehind⟩ := path.batch_isPrefix (front :: rest)
  rw [leftSum_pos_iff]
  refine ⟨front, ?_, h⟩
  cases hbatch : path.batch (front :: rest) with
  | nil => exact absurd hbatch (path.batch_ne_nil (List.cons_ne_nil _ _))
  | cons packet batch =>
      rw [hbatch, List.cons_append, List.cons.injEq] at hbehind
      simp [hbehind.1]

theorem batch_pos_normal {front : PendingPacket} {rest : List PendingPacket} :
    0 < leftSum (normal.batch (front :: rest)) ↔
      0 < front.left ∨ ∃ packet, rest.find? (fun packet => 0 < packet.left) = some packet ∧
        packet.left ≤ DataSocket.sendbufSize := by
  by_cases hpos : 0 < front.left
  · exact iff_of_true (normal.batch_pos_of_head hpos) (.inl hpos)
  · have hzero : front.left = 0 := Nat.eq_zero_of_not_pos hpos
    simp only [batch, hzero, Nat.not_lt_zero, if_false, mergeBatch, Nat.add_zero, leftSum_cons,
      Nat.zero_add, false_or]
    exact leftSum_mergeBatch_pos rest

theorem forall_dropWhile_empty (packets : List PendingPacket) :
    (∀ packet ∈ packets.dropWhile (fun packet => packet.left == 0), packet.left < 2 ^ 31) ↔
      ∀ packet ∈ packets, packet.left < 2 ^ 31 := by
  induction packets with
  | nil => rfl
  | cons packet rest ih =>
      by_cases hzero : packet.left = 0
      · rw [List.dropWhile_cons_of_pos (by simpa using hzero), ih, List.forall_mem_cons]
        exact (and_iff_right (by omega)).symm
      · rw [List.dropWhile_cons_of_neg (by simpa using hzero)]

/-- A batch of `normalFlush` is too large only if a packet is. -/
theorem small_normal (packets : List PendingPacket) :
    leftSum (normal.batch packets) < 2 ^ 31 ↔
      ∀ packet ∈ normal.batch packets, packet.left < 2 ^ 31 := by
  refine ⟨fun h packet hmem => (left_le_leftSum hmem).trans_lt h, fun h => ?_⟩
  cases packets with
  | nil => decide
  | cons front rest =>
      simp only [batch] at h ⊢
      split at h
      next hlarge =>
        rw [if_pos hlarge]
        simpa [leftSum] using h
      next hfits =>
        rw [if_neg hfits]
        have hmerge := leftSum_mergeBatch_le (Nat.zero_le _) (front :: rest)
        simp only [DataSocket.sendbufSize] at hmerge
        omega

/-- The packets of a list are those of its batch and those behind it. -/
theorem forall_batch_behind (path : FlushPath) (packets : List PendingPacket) :
    ((∀ packet ∈ path.batch packets, packet.left < 2 ^ 31) ∧
      ∀ packet ∈ path.behind packets, packet.left < 2 ^ 31) ↔
      ∀ packet ∈ packets, packet.left < 2 ^ 31 := by
  have hbatch : path.batch packets = packets.take (path.batch packets).length :=
    List.prefix_iff_eq_take.mp (path.batch_isPrefix packets)
  unfold behind
  rw [forall_dropWhile_empty, ← List.forall_mem_append]
  nth_rewrite 1 [hbatch]
  rw [List.take_append_drop]

/-- Once the front packet has bytes, only large packets stop `normalFlush`. -/
theorem manages_normal_of_head (h : ∀ packet, packets.head? = some packet → 0 < packet.left) :
    normal.Manages packets ↔ ∀ packet ∈ packets, packet.left < 2 ^ 31 := by
  induction hn : packets.length using Nat.strong_induction_on generalizing packets with
  | _ n ih =>
    cases packets with
    | nil => exact iff_of_true .nil (by simp)
    | cons front rest =>
        have hne : front :: rest ≠ [] := List.cons_ne_nil _ _
        have hpos := @batch_pos_of_head normal front rest (h front rfl)
        rw [manages_iff hne, ih _ (hn ▸ normal.length_behind_lt hne)
          (fun packet => normal.head_behind _) rfl, small_normal, forall_batch_behind]
        exact and_iff_right hpos

theorem behind_quick (packets : List PendingPacket) :
    quick.behind packets =
      (packets.drop DataSocket.maxIovec).dropWhile fun packet => packet.left == 0 := by
  have hdrop : packets.drop (packets.take DataSocket.maxIovec).length =
      packets.drop DataSocket.maxIovec := by
    rw [List.length_take]
    rcases Nat.le_total DataSocket.maxIovec packets.length with hle | hge
    · rw [Nat.min_eq_left hle]
    · rw [Nat.min_eq_right hge, List.drop_length, List.drop_eq_nil_of_le hge]
  rw [behind, show quick.batch packets = packets.take DataSocket.maxIovec from rfl, hdrop]

theorem writevBatches_of_ne_nil (h : packets ≠ []) :
    writevBatches packets = quick.batch packets :: writevBatches (quick.behind packets) := by
  rw [writevBatches, if_neg h, behind_quick]
  rfl

/-- Once the front packet has bytes, only large batches stop `quickFlush`. -/
theorem manages_quick_of_head (h : ∀ packet, packets.head? = some packet → 0 < packet.left) :
    quick.Manages packets ↔ ∀ batch ∈ writevBatches packets, leftSum batch < 2 ^ 31 := by
  induction hn : packets.length using Nat.strong_induction_on generalizing packets with
  | _ n ih =>
    cases packets with
    | nil =>
        refine iff_of_true .nil ?_
        rw [writevBatches]
        simp
    | cons front rest =>
        have hne : front :: rest ≠ [] := List.cons_ne_nil _ _
        have hpos := @batch_pos_of_head quick front rest (h front rfl)
        rw [manages_iff hne, ih _ (hn ▸ quick.length_behind_lt hne)
          (fun packet => quick.head_behind _) rfl, writevBatches_of_ne_nil hne,
          List.forall_mem_cons]
        exact and_iff_right hpos

/-- The two forms of the condition. -/
theorem manages_iff_drainable (path : FlushPath) (packets : List PendingPacket) :
    path.Manages packets ↔ path.Drainable packets := by
  cases packets with
  | nil => exact iff_of_true .nil (by cases path <;> trivial)
  | cons front rest =>
      have hne : front :: rest ≠ [] := List.cons_ne_nil _ _
      rw [manages_iff hne]
      cases path with
      | quick =>
          rw [manages_quick_of_head fun packet => quick.head_behind _, leftSum_pos_iff, Drainable,
            writevBatches_of_ne_nil hne, List.forall_mem_cons]
          · rfl
          · simp
      | normal =>
          rw [manages_normal_of_head fun packet => normal.head_behind _, batch_pos_normal,
            small_normal, forall_batch_behind, Drainable]

end FlushPath

namespace Flush

/-- The positions of the packets with a complete callback, counted from `first`. -/
def callbackPositions (packets : List PendingPacket) (first : ℕ) : List ℕ :=
  ((packets.zipIdx first).filter fun x => x.1.mCompleteCallback).map Prod.snd

/-- Erasing everything calls all the callbacks. -/
theorem fired_eraseLoop (removed : ℕ) (fired : List ℕ) (packets : List PendingPacket) :
    (eraseLoop (leftSum packets) removed fired packets).fired =
      fired ++ callbackPositions packets removed := by
  induction packets generalizing removed fired with
  | nil => simp [eraseLoop, callbackPositions]
  | cons packet rest ih =>
      unfold eraseLoop
      rw [leftSum_cons, if_neg (by omega), Nat.add_sub_cancel_left, ih, List.append_assoc]
      cases hcallback : packet.mCompleteCallback <;>
        simp [callbackPositions, List.zipIdx_cons, hcallback]

/-- **When a flush drains.**  On a socket that is open and writable, with every system
call taking all it is offered and leaving `errno` alone, a call of `flush()` ends with an
empty send list, all complete callbacks called once and in order, and the socket open, if
and only if the list is drainable. -/
theorem flush_drains_iff (path : FlushPath) (errnoBlocks : Bool) (ds : DataSocket)
    (hopen : ds.mSocket.isSome = true) (hwrite : ds.mCanWrite = true)
    (hle : LeftLe ds.mSendList) :
    (∃ s, Ends path (willingKernel errnoBlocks) ((), call ds) s ∧ s.ds.mSendList = [] ∧
      s.fired = callbackPositions ds.mSendList 0 ∧ s.ds.mSocket.isSome = true) ↔
    path.Drainable ds.mSendList := by
  have hturn : (call ds).pc = .turn := by
    simp [call, hwrite, Option.isSome_iff_ne_none.mp hopen]
  have hdrains : Drains path errnoBlocks (call ds) ↔ path.Manages ds.mSendList :=
    drains_iff_manages hturn hopen hle
  have hall := fired_eraseLoop 0 [] ds.mSendList
  rw [List.nil_append] at hall
  rw [← path.manages_iff_drainable, ← hdrains]
  refine exists_congr fun s => and_congr_right fun _ => ?_
  constructor
  · rintro ⟨hlist, hfired, hsocket⟩
    exact ⟨hlist, hsocket, hfired.trans hall.symm⟩
  · rintro ⟨hlist, hsocket, hfired⟩
    exact ⟨hlist, hfired.trans hall, hsocket⟩

/-- An empty packet between two others is no obstacle. -/
theorem flush_drains_iff_empty_between :
    ∃ s, Ends .normal (willingKernel true) ((), call { idleSocket with
        mSendList := [⟨[1, 2], 2, true⟩, ⟨[], 0, true⟩, ⟨[3], 1, false⟩] }) s ∧
      s.ds.mSendList = [] ∧ s.fired = [0, 1] ∧ s.ds.mSocket.isSome = true := by
  have hdrains := (flush_drains_iff .normal true { idleSocket with
    mSendList := [⟨[1, 2], 2, true⟩, ⟨[], 0, true⟩, ⟨[3], 1, false⟩] } rfl rfl
    (by simp [LeftLe])).mpr (by simp [FlushPath.Drainable])
  exact hdrains

/-- A single empty packet: `writev` returns zero, and `quickFlush` closes the socket. -/
theorem not_flush_drains_empty_packet :
    ¬∀ (path : FlushPath) (errnoBlocks : Bool) (ds : DataSocket), ds.mSocket.isSome = true →
      ds.mCanWrite = true → LeftLe ds.mSendList →
      ∃ s, Ends path (willingKernel errnoBlocks) ((), call ds) s ∧ s.ds.mSendList = [] ∧
        s.fired = callbackPositions ds.mSendList 0 ∧ s.ds.mSocket.isSome = true := by
  intro h
  obtain ⟨s, hends, -, -, hopen⟩ := h .quick false
    { idleSocket with mSendList := [⟨[], 0, true⟩] } rfl rfl (by simp [LeftLe])
  have hstep : (step .quick (willingKernel false))^[1]
      ((), call { idleSocket with mSendList := [⟨[], 0, true⟩] }) = ((), _) := rfl
  rw [(ends_iff_eq (ends_of_done rfl)).mp ((ends_of_iterate hstep).mp hends)] at hopen
  cases hopen

end Flush

end Brynet
