import Brynet.Lib.Halting
import Brynet.Net.Flush

/-!
# A whole flush against a kernel

`Flush.step` runs a flush function against a `Kernel`, which answers every system
call from a state of its own; `Flush.Ends` says in which state the call of
`flush()` ends.

The erase loop is where both functions meet.  `eraseLoop` is its outcome in one
piece: the packets it leaves, and the packets it removes with the callbacks it
calls.  It takes its bytes in any number of portions (`eraseLoop_add`), which is
what makes the cuts of the two functions comparable.
-/

namespace Brynet

open MachineInt Halting

/-- A kernel with states `κ`: what a system call that is offered a number of bytes
returns, as the `int` of the flush functions shows it. -/
abbrev Kernel (κ : Type) := κ → ℕ → WritevResult × κ

/-- The number of bytes in the packets that were not yet accepted. -/
def leftSum (packets : List PendingPacket) : ℕ := (packets.map PendingPacket.left).sum

/-- No packet has more bytes left than it has. -/
def LeftLe (packets : List PendingPacket) : Prop :=
  ∀ packet ∈ packets, packet.left ≤ packet.data.length

/-- The packets that the merge loop of `normalFlush` copies. -/
def mergeBatch (waitSendSize : ℕ) : List PendingPacket → List PendingPacket
  | [] => []
  | packet :: rest =>
      if DataSocket.sendbufSize < waitSendSize + packet.left then []
      else packet :: mergeBatch (waitSendSize + packet.left) rest

namespace FlushPath

/-- The packets whose bytes go into one system call. -/
def batch (path : FlushPath) (packets : List PendingPacket) : List PendingPacket :=
  match path, packets with
  | quick, packets => packets.take DataSocket.maxIovec
  | normal, [] => []
  | normal, packet :: rest =>
      if DataSocket.sendbufSize < packet.left then [packet] else mergeBatch 0 (packet :: rest)

/-- The bytes the function wants to send. -/
def wantedBytes (path : FlushPath) (ds : DataSocket) : List UInt8 :=
  match path with
  | quick => ds.offered
  | normal => ds.waitSend

/-- The number of bytes the function wants to send. -/
def wanted (path : FlushPath) (ds : DataSocket) : ℕ := (path.wantedBytes ds).length

end FlushPath

namespace Flush

variable {κ : Type}

/-- The call of `flush()`; with `mCanWrite` reset or `mSocket` null it returns. -/
def call (ds : DataSocket) : Flush where
  ds := ds
  procs := []
  pc := if !ds.mCanWrite || ds.mSocket.isNone then .done else .turn
  accepted := []
  removed := 0
  fired := []

/-- A step of a flush against a kernel. -/
def step (path : FlushPath) (kernel : Kernel κ) (x : κ × Flush) : κ × Flush :=
  match x.2.pc with
  | .turn =>
      if path.leaves x.2.ds then (x.1, { x.2 with pc := .done })
      else
        let answer := kernel x.1 (path.wanted x.2.ds)
        (answer.2, x.2.afterSend path answer.1)
  | .erase tmpLen full => (x.1, x.2.eraseTurn tmpLen full)
  | .done => x

/-- The flush that is in the state `x` ends in the state `s`. -/
def Ends (path : FlushPath) (kernel : Kernel κ) (x : κ × Flush) (s : Flush) : Prop :=
  ∃ k, Halting.Ends (step path kernel) (fun y => y.2.pc = .done) x (k, s)

variable {path : FlushPath} {kernel : Kernel κ} {k : κ} {s s' : Flush}

theorem step_of_done (y : κ × Flush) (h : y.2.pc = .done) : step path kernel y = y := by
  simp only [step, h]

/-- The flush ends where it ends from any of its later states. -/
theorem ends_of_iterate {x y : κ × Flush} {n : ℕ} (h : (step path kernel)^[n] x = y) :
    Ends path kernel x s ↔ Ends path kernel y s := by
  subst h
  exact exists_congr fun k => (ends_iterate step_of_done n).symm

theorem ends_of_done (h : s.pc = .done) : Ends path kernel (k, s) s := ⟨k, .of_halted h⟩

/-- A flush ends in one state. -/
theorem ends_iff_eq {x : κ × Flush} (h : Ends path kernel x s) : Ends path kernel x s' ↔ s' = s := by
  obtain ⟨k, hends⟩ := h
  constructor
  · rintro ⟨k', hends'⟩
    exact congrArg Prod.snd (hends'.unique step_of_done hends)
  · rintro rfl
    exact ⟨k, hends⟩

/-! ## The erase loop -/

end Flush

/-- What the erase loop leaves: the packets in the list, the number of those that
were erased so far, and the positions whose complete callback was called. -/
structure Erased where
  packets : List PendingPacket
  removed : ℕ
  fired : List ℕ
deriving Repr, DecidableEq

/-- The erase loop on a list, with `tmp_len` bytes to account for. -/
def eraseLoop (tmpLen removed : ℕ) (fired : List ℕ) : List PendingPacket → Erased
  | [] => ⟨[], removed, fired⟩
  | packet :: rest =>
      if tmpLen < packet.left then
        ⟨{ packet with left := packet.left - tmpLen } :: rest, removed, fired⟩
      else
        eraseLoop (tmpLen - packet.left) (removed + 1)
          (fired ++ if packet.mCompleteCallback then [removed] else []) rest

variable {removed : ℕ} {fired : List ℕ} {packets : List PendingPacket}

/-- **The erase loop takes its bytes in portions.** -/
theorem eraseLoop_add (a b : ℕ) (removed : ℕ) (fired : List ℕ) (packets : List PendingPacket) :
    eraseLoop (a + b) removed fired packets =
      eraseLoop b (eraseLoop a removed fired packets).removed
        (eraseLoop a removed fired packets).fired (eraseLoop a removed fired packets).packets := by
  induction packets generalizing a removed fired with
  | nil => rfl
  | cons packet rest ih =>
      by_cases ha : a < packet.left
      · have hfirst : eraseLoop a removed fired (packet :: rest) =
            ⟨{ packet with left := packet.left - a } :: rest, removed, fired⟩ := if_pos ha
        rw [hfirst]
        simp only [eraseLoop]
        by_cases hb : a + b < packet.left
        · have hb' : b < packet.left - a := by omega
          rw [if_pos hb, if_pos hb', Nat.sub_sub]
        · have hb' : ¬b < packet.left - a := by omega
          have hrest : a + b - packet.left = b - (packet.left - a) := by omega
          rw [if_neg hb, if_neg hb', hrest]
      · have hfirst : eraseLoop a removed fired (packet :: rest) =
            eraseLoop (a - packet.left) (removed + 1)
              (fired ++ if packet.mCompleteCallback then [removed] else []) rest := if_neg ha
        have hrest : a + b - packet.left = a - packet.left + b := by omega
        rw [hfirst, ← ih, ← hrest]
        exact if_neg (by omega)

theorem leftSum_cons (packet : PendingPacket) (rest : List PendingPacket) :
    leftSum (packet :: rest) = packet.left + leftSum rest := List.sum_cons

theorem leftSum_append (first second : List PendingPacket) :
    leftSum (first ++ second) = leftSum first + leftSum second := by
  simp [leftSum]

theorem leftSum_eraseLoop (n removed : ℕ) (fired : List ℕ) (packets : List PendingPacket) :
    leftSum (eraseLoop n removed fired packets).packets = leftSum packets - n := by
  induction packets generalizing n removed fired with
  | nil => simp [eraseLoop, leftSum]
  | cons packet rest ih =>
      unfold eraseLoop
      split
      · simp only [leftSum_cons]
        omega
      · rw [ih, leftSum_cons]
        omega

theorem LeftLe.eraseLoop (h : LeftLe packets) (n removed : ℕ) (fired : List ℕ) :
    LeftLe (eraseLoop n removed fired packets).packets := by
  induction packets generalizing n removed fired with
  | nil => simp [LeftLe, Brynet.eraseLoop]
  | cons packet rest ih =>
      obtain ⟨hpacket, hrest⟩ := List.forall_mem_cons.mp h
      unfold Brynet.eraseLoop
      split
      · exact List.forall_mem_cons.mpr ⟨(Nat.sub_le _ _).trans hpacket, hrest⟩
      · exact ih hrest _ _ _

theorem unsent_eraseLoop (h : LeftLe packets) (n removed : ℕ) (fired : List ℕ) :
    ((eraseLoop n removed fired packets).packets.map PendingPacket.unsent).flatten =
      ((packets.map PendingPacket.unsent).flatten).drop n := by
  induction packets generalizing n removed fired with
  | nil => simp [eraseLoop]
  | cons packet rest ih =>
      obtain ⟨hpacket, hrest⟩ := List.forall_mem_cons.mp h
      have hlength := PendingPacket.length_unsent hpacket
      unfold eraseLoop
      split
      next hlt =>
        simp only [List.map_cons, List.flatten_cons]
        rw [PendingPacket.unsent_shrink hpacket hlt, List.drop_append_of_le_length (by omega)]
      next hge =>
        have hall : packet.unsent.drop n = [] := List.drop_eq_nil_of_le (by omega)
        rw [ih hrest, List.map_cons, List.flatten_cons, List.drop_append, hlength, hall,
          List.nil_append]

theorem length_unsent_eq (h : LeftLe packets) :
    ((packets.map PendingPacket.unsent).flatten).length = leftSum packets := by
  induction packets with
  | nil => rfl
  | cons packet rest ih =>
      obtain ⟨hpacket, hrest⟩ := List.forall_mem_cons.mp h
      rw [List.map_cons, List.flatten_cons, List.length_append,
        PendingPacket.length_unsent hpacket, ih hrest, leftSum_cons]

/-! ## The batches -/

theorem mergeBatch_isPrefix (waitSendSize : ℕ) (packets : List PendingPacket) :
    mergeBatch waitSendSize packets <+: packets := by
  induction packets generalizing waitSendSize with
  | nil => exact List.nil_prefix
  | cons packet rest ih =>
      unfold mergeBatch
      split
      · exact List.nil_prefix
      · exact (List.prefix_cons_inj packet).mpr (ih _)

theorem mergePackets_eq (waitSendSize : ℕ) (packets : List PendingPacket) :
    DataSocket.mergePackets waitSendSize packets =
      ((mergeBatch waitSendSize packets).map PendingPacket.unsent).flatten := by
  induction packets generalizing waitSendSize with
  | nil => rfl
  | cons packet rest ih =>
      unfold DataSocket.mergePackets mergeBatch
      split
      · rfl
      · rw [ih, List.map_cons, List.flatten_cons]

namespace FlushPath

variable (path : FlushPath) {ds : DataSocket}

theorem batch_isPrefix (packets : List PendingPacket) : path.batch packets <+: packets := by
  cases path with
  | quick => exact List.take_prefix _ _
  | normal =>
      cases packets with
      | nil => exact List.nil_prefix
      | cons packet rest =>
          simp only [batch]
          split
          · exact ⟨rest, rfl⟩
          · exact mergeBatch_isPrefix 0 _

/-- The function wants to send the bytes of its batch. -/
theorem wantedBytes_eq :
    path.wantedBytes ds = ((path.batch ds.mSendList).map PendingPacket.unsent).flatten := by
  cases path with
  | quick => rfl
  | normal =>
      unfold wantedBytes DataSocket.waitSend batch
      cases ds.mSendList with
      | nil => rfl
      | cons packet rest =>
          dsimp only
          split
          · simp
          · exact mergePackets_eq 0 _

theorem wanted_eq (h : LeftLe ds.mSendList) :
    path.wanted ds = leftSum (path.batch ds.mSendList) := by
  have hsub := (path.batch_isPrefix ds.mSendList).subset
  have hbatch : LeftLe (path.batch ds.mSendList) := fun packet hmem => h packet (hsub hmem)
  rw [wanted, wantedBytes_eq, length_unsent_eq hbatch]

theorem wanted_le (h : LeftLe ds.mSendList) : path.wanted ds ≤ leftSum ds.mSendList := by
  obtain ⟨rest, hrest⟩ := path.batch_isPrefix ds.mSendList
  rw [path.wanted_eq h]
  conv_rhs => rw [← hrest, leftSum_append]
  exact Nat.le_add_right _ _

/-- The offered bytes, when the conversion of their number to `int` is exact. -/
theorem offered_eq (h : path.wanted ds < 2 ^ 31) :
    path.offered ds = ds.unsent.take (path.wanted ds) := by
  have hbytes : path.offered ds = path.wantedBytes ds := by
    cases path with
    | quick => rfl
    | normal =>
        have hlength : ds.waitSend.length < 2 ^ 31 := h
        unfold offered wantedBytes
        rw [toInt32_eq hlength, Int.toNat_natCast, List.take_length]
  have hprefix : path.wantedBytes ds <+: ds.unsent := hbytes ▸ flush_offered_isPrefix path ds
  rw [hbytes]
  exact List.prefix_iff_eq_take.mp hprefix

/-- The write was full if all the wanted bytes were accepted. -/
theorem full_eq (hle : LeftLe ds.mSendList) (h : path.wanted ds < 2 ^ 31) {count : ℕ}
    (hcount : count ≤ path.wanted ds) : path.full ds count = decide (count = path.wanted ds) := by
  cases path with
  | quick =>
      have hready : ds.readySendLen = toInt32 (quick.wanted ds) := by
        rw [quick.wanted_eq hle]
        rfl
      unfold full
      rw [hready, toInt32_eq h, toInt32_eq (hcount.trans_lt h)]
      simp only [Nat.cast_inj]
  | normal => rfl

end FlushPath

namespace Flush

variable {κ : Type} {path : FlushPath} {kernel : Kernel κ} {k : κ}

/-- The state after the erase loop. -/
def erased (s : Flush) (tmpLen : ℕ) : Flush :=
  let e := eraseLoop tmpLen s.removed s.fired s.ds.mSendList
  { s with ds := { s.ds with mSendList := e.packets }, removed := e.removed, fired := e.fired }

/-- What follows the erase loop does not look at where it stopped. -/
theorem afterErase_congr {s s' : Flush} (full : Bool)
    (h : { s with pc := .turn } = { s' with pc := .turn }) :
    s.afterErase full = s'.afterErase full := by
  have hdone : ∀ u : Flush, u.finish (u.ds.blockWrite, []) =
      Flush.finish { u with pc := .turn } (({ u with pc := .turn } : Flush).ds.blockWrite, []) :=
    fun _ => rfl
  unfold afterErase
  split
  · exact h
  · rw [hdone s, hdone s', h]

/-- **The erase loop ends**, in the state `erased`. -/
theorem iterate_erase {s : Flush} {tmpLen : ℕ} {full : Bool} (hpc : s.pc = .erase tmpLen full) :
    ∃ n, (step path kernel)^[n] (k, s) = (k, (s.erased tmpLen).afterErase full) := by
  induction hlist : s.ds.mSendList generalizing s tmpLen with
  | nil =>
      refine ⟨1, ?_⟩
      simp only [Function.iterate_one, step, hpc, eraseTurn, hlist]
      congr 1
      apply afterErase_congr
      simp only [erased, hlist, eraseLoop]
      rw [← hlist]
  | cons packet rest ih =>
      by_cases hlt : tmpLen < packet.left
      · refine ⟨1, ?_⟩
        simp only [Function.iterate_one, step, hpc, eraseTurn, hlist, if_pos hlt]
        congr 1
        apply afterErase_congr
        simp [erased, eraseLoop, hlist, hlt, DataSocket.shrinkFront]
      · obtain ⟨n, hn⟩ := @ih (s.eraseTurn tmpLen full) (tmpLen - packet.left)
          (by simp [eraseTurn, hlist, hlt])
          (by simp [eraseTurn, hlist, hlt, DataSocket.eraseFront])
        refine ⟨n + 1, ?_⟩
        have hstep : step path kernel (k, s) = (k, s.eraseTurn tmpLen full) := by
          simp only [step, hpc]
        rw [Function.iterate_succ_apply, hstep, hn]
        congr 1
        apply afterErase_congr
        simp [erased, eraseTurn, eraseLoop, hlist, hlt, DataSocket.eraseFront]

/-- **A turn of the outer loop** in which the system call shows `count` bytes. -/
theorem iterate_turn {s : Flush} {k' : κ} {count : ℕ} (hpc : s.pc = .turn)
    (hleaves : path.leaves s.ds = false)
    (hanswer : kernel k (path.wanted s.ds) = (.accepted count, k')) :
    ∃ n, (step path kernel)^[n] (k, s) =
      (k', (erased { s with accepted := s.accepted ++ (path.offered s.ds).take count }
        count).afterErase (path.full s.ds count)) := by
  have hstep : step path kernel (k, s) = (k', s.afterSend path (.accepted count)) := by
    simp [step, hpc, hleaves, hanswer]
  obtain ⟨n, hn⟩ := @iterate_erase κ path kernel k' (s.afterSend path (.accepted count)) count
    (path.full s.ds count) rfl
  refine ⟨n + 1, ?_⟩
  rw [Function.iterate_succ_apply, hstep, hn]
  rfl

end Flush

end Brynet
