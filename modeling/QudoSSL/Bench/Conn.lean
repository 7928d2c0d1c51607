import QudoSSL.Bench.Run
import QudoSSL.Cpp.View

/-!
# `class Conn` of `benchmark/openssl-bench/bench.cc`

Two connections in one process, with no socket between them.  What one SSL object writes collects in
a memory BIO and `transfer_to` copies it into the other connection's buffer, from which that side's
SSL object reads through a BIO that only borrows the bytes.  The SSL objects are arbitrary: they may
read and write at any time and in any amounts.
-/

namespace QudoSSL.OpensslBench

open Cpp

/-! ## A connection -/

/-- With all that its SSL object has written and read so far. -/
structure Conn where
  readBuffer : Vec UInt8
  readsFrom : View
  writesTo : List UInt8
  sent : List UInt8
  got : List UInt8

namespace Conn

def installReadBio (c : Conn) : Conn := { c with readsFrom := c.readBuffer.view }

def new : Conn := installReadBio ⟨⟨[], 0⟩, ⟨0, 0, 0⟩, [], [], []⟩

/-- The move constructor: the vector's storage changes hands, and the BIO is made anew. -/
def move (c : Conn) : Conn := installReadBio c

def dropReadBytes (c : Conn) : Conn :=
  -- BIO_get_mem_data reports what is left to read
  let consumed := c.readBuffer.data.length - c.readsFrom.len
  { c with readBuffer := c.readBuffer.eraseFront consumed }

def bufSize : ℕ := 262144

/-- The loop of `transfer_to`, on what is left in the BIO. -/
def transferLoop (out : List UInt8) (newBytes : Bool) (other : Conn) : Bool × Conn :=
  if _h : out = [] then (newBytes, other)
  else
    let other := if newBytes then other else other.dropReadBytes
    transferLoop (out.drop bufSize) true
      { other with readBuffer := other.readBuffer.append (out.take bufSize) }
termination_by out.length
decreasing_by
  have hpos := List.length_pos_of_ne_nil _h
  rw [List.length_drop, bufSize]
  omega

def transferTo (c other : Conn) : Conn × Conn :=
  let r := transferLoop c.writesTo false other
  ({ c with writesTo := [] }, if r.1 then r.2.installReadBio else r.2)

/-- `BIO_read` by the SSL object; undefined if the BIO points to where the bytes no longer are. -/
def sslRead (c : Conn) (n : ℕ) : Option Conn := do
  let r ← c.readsFrom.read c.readBuffer n
  some { c with readsFrom := r.2, got := c.got ++ r.1 }

def sslWrite (c : Conn) (bs : List UInt8) : Conn :=
  { c with writesTo := c.writesTo ++ bs, sent := c.sent ++ bs }

def rest (c : Conn) : List UInt8 := c.readsFrom.rest c.readBuffer

/-- The bytes that have been read since the BIO was made. -/
def done (c : Conn) : List UInt8 := c.readsFrom.done c.readBuffer

def Borrows (c : Conn) : Prop := c.readsFrom.Tail c.readBuffer

/-! ### What the operations do -/

theorem borrows_installReadBio (c : Conn) : c.installReadBio.Borrows := View.tail_view _

-- After the first chunk the loop only appends.
theorem transferLoop_true (out : List UInt8) (other : Conn) :
    (transferLoop out true other).1 = true ∧
      (transferLoop out true other).2.readBuffer.data = other.readBuffer.data ++ out ∧
      (transferLoop out true other).2.writesTo = other.writesTo ∧
      (transferLoop out true other).2.sent = other.sent ∧
      (transferLoop out true other).2.got = other.got := by
  induction hn : out.length using Nat.strong_induction_on generalizing out other with
  | _ n ih =>
      rw [transferLoop]
      split
      · rename_i h
        simp [h]
      · rename_i h
        have hpos := List.length_pos_of_ne_nil h
        have hlt : (out.drop bufSize).length < n := by
          rw [List.length_drop, bufSize]
          omega
        have hrest := ih _ hlt (out.drop bufSize)
          { other with readBuffer := other.readBuffer.append (out.take bufSize) } rfl
        refine ⟨hrest.1, ?_, hrest.2.2⟩
        rw [if_pos rfl, hrest.2.1]
        show other.readBuffer.data ++ out.take bufSize ++ out.drop bufSize = _
        rw [List.append_assoc, List.take_append_drop]

/-- What `transfer_to` makes of the receiver: the bytes follow those it has not read yet. -/
structure Received (out : List UInt8) (c c' : Conn) : Prop where
  borrows : c'.Borrows
  rest : c'.rest = c.rest ++ out
  writesTo : c'.writesTo = c.writesTo
  sent : c'.sent = c.sent
  got : c'.got = c.got

theorem received_transferTo {other : Conn} (h : other.Borrows) (c : Conn) :
    Received c.writesTo other (c.transferTo other).2 := by
  unfold transferTo
  by_cases hout : c.writesTo = []
  · -- nothing to transfer, and the old BIO stays
    rw [hout, transferLoop, dif_pos rfl]
    exact ⟨h, (List.append_nil _).symm, rfl, rfl, rfl⟩
  · rw [transferLoop, dif_neg hout]
    have hloop := transferLoop_true (c.writesTo.drop bufSize)
      { other.dropReadBytes with
        readBuffer := other.dropReadBytes.readBuffer.append (c.writesTo.take bufSize) }
    obtain ⟨hnew, hdata, hwrites, hsent, hgot⟩ := hloop
    simp only [Bool.false_eq_true, if_false, hnew, if_true]
    refine ⟨borrows_installReadBio _, ?_, hwrites, hsent, hgot⟩
    have hdrop : other.dropReadBytes.readBuffer.data = other.rest := h.drop_consumed
    show (transferLoop _ true _).2.readBuffer.data = _
    rw [hdata]
    show other.dropReadBytes.readBuffer.data ++ c.writesTo.take bufSize ++
      c.writesTo.drop bufSize = _
    rw [hdrop, List.append_assoc, List.take_append_drop]

theorem exists_sslRead {c : Conn} (h : c.Borrows) (n : ℕ) :
    ∃ c', c.sslRead n = some c' ∧ c'.Borrows ∧ c'.got ++ c'.rest = c.got ++ c.rest ∧
      c'.writesTo = c.writesTo ∧ c'.sent = c.sent := by
  obtain ⟨w, hread, htail, hrest, -⟩ := h.read n
  refine ⟨{ c with readsFrom := w, got := c.got ++ c.rest.take n }, ?_, htail, ?_, rfl, rfl⟩
  · rw [sslRead, hread]
    rfl
  · show c.got ++ c.rest.take n ++ w.rest c.readBuffer = _
    rw [hrest, List.append_assoc]
    exact congrArg _ (List.take_append_drop n c.rest)

theorem rest_move (c : Conn) : c.move.rest = c.done ++ c.rest :=
  (View.done_append_rest c.readsFrom c.readBuffer).symm

end Conn

/-! ## Two connections -/

def peer : Side → Side
  | .server => .client
  | .client => .server

inductive Op where
  | read (p : Side) (n : ℕ)
  | write (p : Side) (bs : List UInt8)
  | transfer (p : Side)
  | move (p : Side)

abbrev Link := Side → Conn

def start : Link := fun _ => .new

def Link.set (l : Link) (p : Side) (c : Conn) : Link := fun q => if q = p then c else l q

def step (l : Link) : Op → Option Link
  | .read p n => (l p).sslRead n |>.map (l.set p)
  | .write p bs => some (l.set p ((l p).sslWrite bs))
  | .transfer p =>
      let r := (l p).transferTo (l (peer p))
      some ((l.set p r.1).set (peer p) r.2)
  | .move p => some (l.set p (l p).move)

def run (l : Link) (ops : List Op) : Option Link := ops.foldlM step l

/-! ## The two streams -/

/-- All that has become of the bytes `p` has written: read by the other side, in its buffer, or
still in the BIO. -/
def flow (l : Link) (p : Side) : List UInt8 :=
  (l (peer p)).got ++ ((l (peer p)).rest ++ (l p).writesTo)

/-- Each byte is delivered once and in order. -/
def InOrder (l : Link) : Prop := ∀ p, (l p).sent = flow l p

/-- The bytes of the stream from `p` that an operation makes the other side read again. -/
def replayed (l : Link) (p : Side) : Op → List UInt8
  | .move q => if q = peer p then (l q).done else []
  | _ => []

theorem peer_ne (p : Side) : peer p ≠ p := by cases p <;> decide

theorem peer_peer (p : Side) : peer (peer p) = p := by cases p <;> rfl

theorem eq_or_eq_peer (p q : Side) : p = q ∨ p = peer q := by cases p <;> cases q <;> decide

@[simp] theorem Link.set_same (l : Link) (p : Side) (c : Conn) : l.set p c p = c := if_pos rfl

@[simp] theorem Link.set_peer (l : Link) (p : Side) (c : Conn) : l.set p c (peer p) = l (peer p) :=
  if_neg (peer_ne p)

@[simp] theorem Link.set_peer_same (l : Link) (p : Side) (c : Conn) : l.set (peer p) c p = l p :=
  if_neg (peer_ne p).symm

-- Replacing one connection touches the stream it reads and the stream it writes.
theorem flow_set_peer (l : Link) (p : Side) (c : Conn) :
    flow (l.set (peer p) c) p = c.got ++ (c.rest ++ (l p).writesTo) := by
  simp [flow]

theorem flow_set_same (l : Link) (p : Side) (c : Conn) :
    flow (l.set p c) p = (l (peer p)).got ++ ((l (peer p)).rest ++ c.writesTo) := by
  simp [flow]

/-- What one operation does to the stream from `p`: it grows by what is written and, if the
receiver is moved, the bytes that were read are put back in front of the unread ones. -/
def Advances (l l' : Link) (op : Op) (p : Side) : Prop :=
  ∃ new, (l' p).sent = (l p).sent ++ new ∧
    flow l' p = (l (peer p)).got ++
      (replayed l p op ++ ((l (peer p)).rest ++ (l p).writesTo) ++ new)

theorem Advances.of_flow {l l' : Link} {op : Op} {p : Side} (hdup : replayed l p op = [])
    (hsent : (l' p).sent = (l p).sent) (hflow : flow l' p = flow l p) : Advances l l' op p := by
  refine ⟨[], by rw [hsent, List.append_nil], ?_⟩
  rw [hflow, hdup, List.nil_append, List.append_nil]
  rfl

theorem borrows_set {l : Link} (h : ∀ p, (l p).Borrows) (q : Side) {c : Conn} (hc : c.Borrows) :
    ∀ p, (l.set q c p).Borrows := by
  intro p
  rcases eq_or_eq_peer p q with rfl | rfl
  · rwa [Link.set_same]
  · rw [Link.set_peer]
    exact h _

section Step

variable {l : Link} (h : ∀ p, (l p).Borrows)

include h

theorem step_read (q : Side) (n : ℕ) :
    ∃ l', step l (.read q n) = some l' ∧ (∀ p, (l' p).Borrows) ∧
      ∀ p, Advances l l' (.read q n) p := by
  obtain ⟨c, hread, hborrows, hgot, hwrites, hsent⟩ := Conn.exists_sslRead (h q) n
  refine ⟨l.set q c, by rw [step, hread]; rfl, borrows_set h q hborrows, fun p => ?_⟩
  rcases eq_or_eq_peer p q with rfl | rfl
  · refine .of_flow rfl (by rw [Link.set_same, hsent]) ?_
    rw [flow_set_same, hwrites]
    rfl
  · refine .of_flow rfl (by rw [Link.set_peer]) ?_
    have hflow := flow_set_peer l (peer q) c
    rw [peer_peer] at hflow
    rw [hflow, ← List.append_assoc, hgot, List.append_assoc, flow, peer_peer]

theorem step_write (q : Side) (bs : List UInt8) :
    ∃ l', step l (.write q bs) = some l' ∧ (∀ p, (l' p).Borrows) ∧
      ∀ p, Advances l l' (.write q bs) p := by
  refine ⟨_, rfl, borrows_set h q (h q), fun p => ?_⟩
  rcases eq_or_eq_peer p q with rfl | rfl
  · refine ⟨bs, by rw [Link.set_same]; rfl, ?_⟩
    rw [flow_set_same]
    show _ ++ (_ ++ ((l p).writesTo ++ bs)) = _ ++ ([] ++ _ ++ bs)
    rw [List.nil_append, List.append_assoc (l (peer p)).rest]
  · refine .of_flow rfl (by rw [Link.set_peer]) ?_
    have hflow := flow_set_peer l (peer q) ((l q).sslWrite bs)
    rw [peer_peer] at hflow
    rw [hflow, flow, peer_peer]
    rfl

theorem step_transfer (q : Side) :
    ∃ l', step l (.transfer q) = some l' ∧ (∀ p, (l' p).Borrows) ∧
      (∀ p, Advances l l' (.transfer q) p) ∧ (l' q).writesTo = [] := by
  have hrecv := Conn.received_transferTo (h (peer q)) (l q)
  have hsend : ((l q).transferTo (l (peer q))).1 = { l q with writesTo := [] } := rfl
  refine ⟨_, rfl, borrows_set (borrows_set h q ?_) (peer q) hrecv.borrows, fun p => ?_, ?_⟩
  · exact h q
  · rcases eq_or_eq_peer p q with rfl | rfl
    · refine .of_flow rfl (by rw [Link.set_peer_same, Link.set_same, hsend]) ?_
      rw [flow_set_peer, Link.set_same, hrecv.got, hrecv.rest, hsend, List.append_nil]
      rfl
    · refine .of_flow rfl (by rw [Link.set_same, hrecv.sent]) ?_
      rw [flow_set_same, peer_peer, Link.set_same, hsend, hrecv.writesTo, flow, peer_peer]
      rfl
  · rw [Link.set_peer_same, Link.set_same, hsend]

theorem step_move (q : Side) :
    ∃ l', step l (.move q) = some l' ∧ (∀ p, (l' p).Borrows) ∧ ∀ p, Advances l l' (.move q) p := by
  refine ⟨_, rfl, borrows_set h q (Conn.borrows_installReadBio _), fun p => ?_⟩
  rcases eq_or_eq_peer p q with rfl | rfl
  · refine .of_flow (if_neg (peer_ne p).symm) (by rw [Link.set_same]; rfl) ?_
    rw [flow_set_same]
    rfl
  · refine ⟨[], by rw [Link.set_peer, List.append_nil], ?_⟩
    have hflow := flow_set_peer l (peer q) (l q).move
    rw [peer_peer] at hflow
    rw [hflow, Conn.rest_move, replayed, peer_peer, if_pos rfl, List.append_nil, List.append_assoc]
    rfl

/-- Whatever the SSL objects do next, it is defined, and the streams advance. -/
theorem exists_step (op : Op) :
    ∃ l', step l op = some l' ∧ (∀ p, (l' p).Borrows) ∧ ∀ p, Advances l l' op p := by
  cases op with
  | read q n => exact step_read h q n
  | write q bs => exact step_write h q bs
  | transfer q =>
      obtain ⟨l', hstep, hborrows, hadv, -⟩ := step_transfer h q
      exact ⟨l', hstep, hborrows, hadv⟩
  | move q => exact step_move h q

end Step

/-! ## Runs -/

/-- No connection is moved while bytes that it has read are still in its buffer. -/
def NoReplay (l : Link) : List Op → Prop
  | [] => True
  | op :: ops => (∀ p, replayed l p op = []) ∧ ∀ l', step l op = some l' → NoReplay l' ops

/-- More bytes are delivered, or on their way, than were written. -/
def Surplus (l : Link) (p : Side) : Prop := (l p).sent.length < (flow l p).length

theorem Advances.length {l l' : Link} {op : Op} {p : Side} (h : Advances l l' op p) :
    ∃ k, (l' p).sent.length = (l p).sent.length + k ∧
      (flow l' p).length = (flow l p).length + (replayed l p op).length + k := by
  obtain ⟨new, hsent, hflow⟩ := h
  refine ⟨new.length, by rw [hsent, List.length_append], ?_⟩
  rw [hflow, flow]
  simp only [List.length_append]
  omega

theorem Advances.surplus {l l' : Link} {op : Op} {p : Side} (h : Advances l l' op p)
    (hs : Surplus l p) : Surplus l' p := by
  obtain ⟨k, hsent, hflow⟩ := h.length
  unfold Surplus at hs ⊢
  omega

theorem Advances.surplus_of_replayed {l l' : Link} {op : Op} {p : Side} (h : Advances l l' op p)
    (hl : (l p).sent = flow l p) (hdup : replayed l p op ≠ []) : Surplus l' p := by
  obtain ⟨k, hsent, hflow⟩ := h.length
  have hpos := List.length_pos_of_ne_nil hdup
  have hlen := congrArg List.length hl
  unfold Surplus
  omega

theorem Advances.inOrder {l l' : Link} {op : Op} {p : Side} (h : Advances l l' op p)
    (hl : (l p).sent = flow l p) (hdup : replayed l p op = []) : (l' p).sent = flow l' p := by
  obtain ⟨new, hsent, hflow⟩ := h
  rw [hsent, hflow, hl, hdup, List.nil_append, flow, List.append_assoc]

theorem run_cons {l l' : Link} {op : Op} (h : step l op = some l') (ops : List Op) :
    run l (op :: ops) = run l' ops := by
  rw [run, List.foldlM_cons, h]
  rfl

theorem surplus_run {l : Link} (h : ∀ p, (l p).Borrows) {p : Side} (hs : Surplus l p)
    (ops : List Op) : ∃ l', run l ops = some l' ∧ (∀ q, (l' q).Borrows) ∧ Surplus l' p := by
  induction ops generalizing l with
  | nil => exact ⟨l, rfl, h, hs⟩
  | cons op ops ih =>
      obtain ⟨l', hstep, hborrows, hadv⟩ := exists_step h op
      rw [run_cons hstep]
      exact ih hborrows ((hadv p).surplus hs)

theorem exists_run {l : Link} (h : ∀ p, (l p).Borrows) (hl : InOrder l) (ops : List Op) :
    ∃ l', run l ops = some l' ∧ (∀ p, (l' p).Borrows) ∧ (InOrder l' ↔ NoReplay l ops) := by
  induction ops generalizing l with
  | nil => exact ⟨l, rfl, h, iff_of_true hl trivial⟩
  | cons op ops ih =>
      obtain ⟨l', hstep, hborrows, hadv⟩ := exists_step h op
      have hnext : (∀ l'', step l op = some l'' → NoReplay l'' ops) ↔ NoReplay l' ops := by
        rw [hstep]
        constructor
        · exact fun hall => hall l' rfl
        · rintro hl' _ ⟨⟩
          exact hl'
      rw [run_cons hstep, NoReplay, hnext]
      by_cases hdup : ∀ p, replayed l p op = []
      · have hin : InOrder l' := fun p => (hadv p).inOrder (hl p) (hdup p)
        rw [and_iff_right hdup]
        exact ih hborrows hin
      · -- once a byte has come twice, no later operation makes up for it
        obtain ⟨p, hp⟩ := not_forall.mp hdup
        obtain ⟨m, hrun, hborrows', hsurplus⟩ :=
          surplus_run hborrows ((hadv p).surplus_of_replayed (hl p) hp) ops
        refine ⟨m, hrun, hborrows', iff_of_false (fun hin => ?_) fun hno => hdup hno.1⟩
        unfold Surplus at hsurplus
        rw [hin p] at hsurplus
        exact Nat.lt_irrefl _ hsurplus

theorem borrows_start (p : Side) : (start p).Borrows := Conn.borrows_installReadBio _

theorem inOrder_start : InOrder start := fun _ => rfl

/-- However the two SSL objects read and write, and whenever the bytes are transferred, nothing is
read through a BIO whose bytes have moved.  The bytes are delivered once and in order exactly if no
connection is moved between a read and the next transfer to it. -/
theorem run_inOrder_iff (ops : List Op) :
    ∃ l, run start ops = some l ∧ (∀ p, (l p).Borrows) ∧ (InOrder l ↔ NoReplay start ops) :=
  exists_run borrows_start inOrder_start ops

/-! ### `test_memory` -/

-- The connections are moved into their vectors before anything happens on them.
def Unread (l : Link) : Prop := ∀ p, (l p).done = []

theorem replayed_of_unread {l : Link} (h : Unread l) (p : Side) (op : Op) :
    replayed l p op = [] := by
  cases op with
  | move q =>
      rw [replayed, h q]
      exact ite_self []
  | read | write | transfer => rfl

theorem unread_move {l : Link} (h : Unread l) (q : Side) : Unread (l.set q (l q).move) := by
  intro p
  rcases eq_or_eq_peer p q with rfl | rfl
  · rw [Link.set_same]
    rfl
  · rw [Link.set_peer]
    exact h _

def Op.IsMove : Op → Prop
  | .move _ => True
  | _ => False

theorem noReplay_of_not_isMove {ops : List Op} (h : ∀ op ∈ ops, ¬ op.IsMove) (l : Link) :
    NoReplay l ops := by
  induction ops generalizing l with
  | nil => trivial
  | cons op ops ih =>
      rw [List.forall_mem_cons] at h
      refine ⟨fun p => ?_, fun l' _ => ih h.2 l'⟩
      cases op with
      | move q => exact absurd trivial h.1
      | read | write | transfer => rfl

theorem noReplay_moves {l : Link} (h : Unread l) (moves : List Side) {ops : List Op}
    (hops : ∀ op ∈ ops, ¬ op.IsMove) : NoReplay l (moves.map .move ++ ops) := by
  induction moves generalizing l with
  | nil => exact noReplay_of_not_isMove hops l
  | cons q moves ih =>
      refine ⟨fun p => replayed_of_unread h p _, ?_⟩
      rintro l' ⟨⟩
      exact ih (unread_move h q)

/-- Connections that are moved before they are used, as `test_memory` does: after a transfer, what
the other side has read, and what it can read, is all that was written. -/
theorem transfer_delivers (moves : List Side) {ops : List Op} (hops : ∀ op ∈ ops, ¬ op.IsMove)
    (p : Side) :
    ∃ l, run start (moves.map .move ++ ops ++ [.transfer p]) = some l ∧
      (l p).sent = (l (peer p)).got ++ (l (peer p)).rest := by
  have hno := noReplay_moves (fun _ => rfl : Unread start) moves hops
  obtain ⟨l, hrun, hborrows, hin⟩ := exists_run borrows_start inOrder_start (moves.map .move ++ ops)
  obtain ⟨l', hstep, -, hadv, hempty⟩ := step_transfer hborrows p
  refine ⟨l', ?_, ?_⟩
  · rw [run, List.foldlM_append]
    show (run start _ >>= fun l => run l _) = _
    rw [hrun]
    exact run_cons hstep []
  · rw [(hadv p).inOrder (hin.mpr hno p) rfl, flow, hempty, List.append_nil]

theorem transfer_delivers_hello :
    ∃ l, run start (([.server, .client] : List Side).map .move ++ [.write .server [104, 105]] ++
        [.transfer .server]) = some l ∧
      (l .server).sent = (l .client).got ++ (l .client).rest :=
  transfer_delivers [.server, .client]
    (by intro op hop; rw [List.mem_singleton.mp hop]; exact id) .server

end QudoSSL.OpensslBench
