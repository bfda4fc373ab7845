import Kazoo.Chroot
import Kazoo.Protocol.Connection
import Kazoo.Protocol.RoundTrip

/-!
# Transactions

`TransactionRequest` of `kazoo/client.py` beside `create_async`, and the reply to a multi.
-/

namespace Kazoo

/-! ## Creating, in a transaction and without one -/

/-- `OPEN_ACL_UNSAFE` of `kazoo/security.py`: all permissions for anyone. -/
def OPEN_ACL_UNSAFE : List ACL := [⟨31, ⟨str "world", str "anyone"⟩⟩]

/-- `if acl is None and default_acl: acl = default_acl`; an empty default counts as none. -/
def aclOrDefault (acl defaultAcl : Option (List ACL)) : Option (List ACL) :=
  if acl.isNone && defaultAcl.any (!·.isEmpty) then defaultAcl else acl

/-- The request that `_create_async_inner` sends. -/
def Client.innerRequest (c : Client) (path : PyStr) (value : Option Bytes) (acl : List ACL)
    (flags : Nat) (trailing includeData : Bool) : Except Exn Request := do
  let wire ← prefixRoot c.chroot path trailing
  let opcode := if includeData then Request.create2 else Request.create
  return opcode ⟨wire, value, acl, flags⟩

/-- The request that `create_async` sends first. -/
def Client.createAsync (c : Client) (defaultAcl : Option (List ACL)) (path : PyStr)
    (value : Option Bytes) (acl : Option (List ACL)) (ephemeral sequence includeData : Bool) :
    Except Exn Request :=
  let acl := aclOrDefault acl defaultAcl
  let flags := 0
  let flags := if ephemeral then flags ||| 1 else flags
  let flags := if sequence then flags ||| 2 else flags
  let acl := acl.getD OPEN_ACL_UNSAFE
  c.innerRequest path value acl flags sequence includeData

structure TransactionRequest where
  operations : List Operation
  committed : Bool
  deriving DecidableEq

namespace TransactionRequest

/-- `_add`. -/
def add (tx : TransactionRequest) (request : Operation) : Except Exn TransactionRequest :=
  if tx.committed then .error .valueError
  else .ok { tx with operations := tx.operations ++ [request] }

def create (tx : TransactionRequest) (c : Client) (defaultAcl : Option (List ACL)) (path : PyStr)
    (value : Bytes) (acl : Option (List ACL)) (ephemeral sequence : Bool) :
    Except Exn TransactionRequest := do
  let acl := aclOrDefault acl defaultAcl
  let flags := 0
  let flags := if ephemeral then flags ||| 1 else flags
  let flags := if sequence then flags ||| 2 else flags
  let acl := acl.getD OPEN_ACL_UNSAFE
  let wire ← prefixRoot c.chroot path false
  tx.add (.create ⟨wire, some value, acl, (flags : Nat)⟩)

/-- What the transaction adds is what `create_async` sends, field by field. -/
def CreatesAlike (tx : TransactionRequest) (c : Client) (defaultAcl : Option (List ACL))
    (path : PyStr) (value : Bytes) (acl : Option (List ACL)) (ephemeral sequence : Bool) : Prop :=
  ∃ r tx', tx.create c defaultAcl path value acl ephemeral sequence = .ok tx' ∧
    tx'.operations = tx.operations ++ [.create r] ∧
    c.createAsync defaultAcl path (some value) acl ephemeral sequence false = .ok (.create r)

end TransactionRequest

section Create

variable {tx : TransactionRequest} {c : Client} {defaultAcl acl : Option (List ACL)} {path : PyStr}
  {value : Bytes} {ephemeral sequence : Bool}

theorem endswithSlash_cons (path : PyStr) :
    endswithSlash (slash :: path) = true ↔ path = [] ∨ endswithSlash path = true := by
  cases path with
  | nil => exact iff_of_true rfl (.inl rfl)
  | cons a path =>
    rw [or_iff_right (List.cons_ne_nil a path), endswithSlash, endswithSlash, List.getLast?_cons_cons]

/-- The slash at the end is all that `trailing` decides. -/
theorem prefixRoot_trailing_iff {root wire : PyStr} (h : prefixRoot root path false = .ok wire) :
    prefixRoot root path true = .ok wire ↔
      path ≠ [] ∧ endswithSlash path = false ∨ ¬ NamesNode root ∧ ¬ NamesNode path := by
  obtain ⟨hproper, rfl⟩ := prefixRoot_eq_ok_iff.mp h
  rw [prefixRoot_eq_ok_iff, and_iff_right hproper, absolute, absolute]
  have hnames : components slash root ++ components slash path = [] ↔
      ¬ NamesNode root ∧ ¬ NamesNode path := by
    rw [List.append_eq_nil_iff, ← components_ne_nil_iff, ← components_ne_nil_iff, not_not, not_not]
  have hends : (path ≠ [] ∧ endswithSlash path = false) ↔ endswithSlash (slash :: path) = false := by
    rw [← Bool.not_eq_true, ← Bool.not_eq_true, endswithSlash_cons, not_or]
  rw [hends]
  by_cases hempty : components slash root ++ components slash path = []
  · rw [if_pos hempty, if_pos hempty]
    exact iff_of_true rfl (.inr (hnames.mp hempty))
  · rw [if_neg hempty, if_neg hempty, or_iff_left (mt hnames.mpr hempty), List.append_right_inj,
      trailer, trailer, Bool.true_and, Bool.false_and, if_neg Bool.false_ne_true]
    cases endswithSlash (slash :: path)
    · exact iff_of_true rfl rfl
    · exact iff_of_false (List.cons_ne_nil slash []) Bool.noConfusion

/-- `create` of a transaction agrees with `create_async`, but for the name of a sequential node
whose path ends in a slash. -/
theorem create_alike_iff (htx : tx.committed = false)
    (hpath : ∃ wire, prefixRoot c.chroot path false = .ok wire) :
    tx.CreatesAlike c defaultAcl path value acl ephemeral sequence ↔
      (sequence = true → path ≠ [] ∧ endswithSlash path = false ∨
        ¬ NamesNode c.chroot ∧ ¬ NamesNode path) := by
  obtain ⟨wire, hwire⟩ := hpath
  have hcreate : tx.create c defaultAcl path value acl ephemeral sequence =
      .ok { tx with operations := tx.operations ++ [.create ⟨wire, some value,
        (aclOrDefault acl defaultAcl).getD OPEN_ACL_UNSAFE, ((if sequence then
          (if ephemeral then 0 ||| 1 else 0) ||| 2 else if ephemeral then 0 ||| 1 else 0 : Nat) :
            Int)⟩] } := by
    simp only [TransactionRequest.create, hwire, TransactionRequest.add, htx, bind, Except.bind,
      Bool.false_eq_true, if_false]
  -- both write the same flags and access lists, and the paths are to be compared
  have hsame : tx.CreatesAlike c defaultAcl path value acl ephemeral sequence ↔
      prefixRoot c.chroot path sequence = .ok wire := by
    unfold TransactionRequest.CreatesAlike
    rw [hcreate]
    constructor
    · rintro ⟨r, tx', htx', hadded, hrequest⟩
      obtain rfl := Except.ok.inj htx'
      have hr := List.append_cancel_left hadded
      simp only [List.cons.injEq, Operation.create.injEq, and_true] at hr
      obtain ⟨wire', hwire', hrequest⟩ := bind_eq_ok hrequest
      have hrequest := pure_inj hrequest
      simp only [Bool.false_eq_true, if_false, Request.create.injEq, ← hr, Create.mk.injEq] at hrequest
      rw [hwire', hrequest.1]
    · intro hsequence
      refine ⟨_, _, rfl, rfl, ?_⟩
      simp only [Client.createAsync, Client.innerRequest, hsequence, bind, Except.bind, pure,
        Except.pure, Bool.false_eq_true, if_false]
  rw [hsame]
  cases sequence with
  | false => exact iff_of_true hwire (fun h => nomatch h)
  | true => rw [prefixRoot_trailing_iff hwire, forall_prop_of_true rfl]

theorem create_alike_numbered :
    (TransactionRequest.mk [] false).CreatesAlike (.new (str "/app")) none (str "a/lock-") [] none
      true true :=
  (create_alike_iff rfl ⟨str "/app/a/lock-", by decide +kernel⟩).mpr fun _ =>
    .inl ⟨by decide, by decide⟩

/-- Without the slash at the end of its path, the number becomes part of the name of the parent. -/
theorem create_differs_numbered :
    ¬ ∀ (tx : TransactionRequest) (c : Client) (defaultAcl : Option (List ACL)) (path : PyStr)
      (value : Bytes) (acl : Option (List ACL)) (ephemeral sequence : Bool), tx.committed = false →
      (∃ wire, prefixRoot c.chroot path false = .ok wire) →
      tx.CreatesAlike c defaultAcl path value acl ephemeral sequence := by
  intro h
  obtain ⟨r, tx', htx', hadded, hrequest⟩ := h ⟨[], false⟩ (.new []) none (str "/folder/") [] none
    false true rfl ⟨str "/folder", by decide +kernel⟩
  have hcreated : (TransactionRequest.mk [] false).create (.new []) none (str "/folder/") [] none
      false true = .ok ⟨[.create ⟨str "/folder", some [], OPEN_ACL_UNSAFE, 2⟩], false⟩ := by
    decide +kernel
  have hsent : (Client.new []).createAsync none (str "/folder/") (some []) none false true false =
      .ok (.create ⟨str "/folder/", some [], OPEN_ACL_UNSAFE, 2⟩) := by decide +kernel
  obtain rfl := Except.ok.inj (hcreated.symm.trans htx')
  simp only [List.nil_append, List.cons.injEq, Operation.create.injEq, and_true] at hadded
  have hr := Request.create.inj (Except.ok.inj (hsent.symm.trans hrequest))
  exact absurd (congrArg Create.path (hadded.trans hr.symm)) (by decide)

end Create

/-! ## The reply to a multi -/

/-- What the server answers to one operation, with the `err` of the header in front. -/
structure OperationAnswer where
  operation : Operation
  result : OperationResult
  err : Int

namespace OperationAnswer

/-- The operation was carried out: a path that is not empty, a stat or an acknowledgement. -/
def Succeeds (a : OperationAnswer) : Prop :=
  match a.operation, a.result with
  | .create _, .path p => p ≠ []
  | .delete _, .ack | .checkVersion _, .ack => True
  | .setData _, .stat _ => True
  | _, _ => False

/-- The transaction was not carried out: an error with a code that the client knows. -/
def Fails (a : OperationAnswer) : Prop := ∃ code ∈ exceptionCodes, a.result = .error (.zookeeper code)

def type (a : OperationAnswer) : Int :=
  match a.result with
  | .error _ => -1
  | _ => a.operation.type

def wireResult : OperationResult → Except Exn Bytes
  | .path p => wireText p
  | .ack => .ok []
  | .stat st => wireStat st
  | .error (.zookeeper code) => intPack code
  -- a server sends nothing but codes
  | .error e => .error e

def wire (a : OperationAnswer) : Except Exn Bytes := do
  return (← multiHeaderSerialize a.type false a.err) ++ (← wireResult a.result)

end OperationAnswer

/-- The reply: the answers one after the other, and the header that is the last. -/
def wireMulti (answers : List OperationAnswer) : Except Exn Bytes := do
  return (← writeMany OperationAnswer.wire answers) ++ (← multiHeaderSerialize (-1) true (-1))

section Reply

variable {buffer b : Bytes} {offset : Nat} {answers : List OperationAnswer}

namespace OperationAnswer

variable {a : OperationAnswer}

theorem wire_eq_ok (h : a.wire = .ok b) : ∃ header body,
    multiHeaderSerialize a.type false a.err = .ok header ∧ wireResult a.result = .ok body ∧
      b = header ++ body := by
  obtain ⟨header, hheader, h⟩ := bind_eq_ok h
  obtain ⟨body, hbody, h⟩ := bind_eq_ok h
  exact ⟨header, body, hheader, hbody, (pure_inj h).symm⟩

/-- The body of an answer, under the header it came with: whatever `response` was before, it is the
result now, and the offset is behind the body. -/
theorem operationDeserialize_wire (ha : a.Succeeds ∨ a.Fails) (hb : wireResult a.result = .ok b)
    (h : Located buffer offset b) {header : MultiHeader} (htype : header.type = some a.type)
    (response : Option OperationResult) :
    operationDeserialize header response buffer offset = .ok (some a.result, offset + b.length) := by
  obtain ⟨operation, result, err⟩ := a
  rcases ha with hsucceeds | ⟨code, hcode, rfl⟩
  · cases operation with
    | create r =>
      cases result <;> first | exact hsucceeds.elim | skip
      have htype : header.type = some Create.type := htype
      rw [operationDeserialize, htype, if_pos rfl, readString_wireText _ _ _ _ hb h]
      rfl
    | delete r =>
      cases result <;> first | exact hsucceeds.elim | skip
      cases hb
      have htype : header.type = some Delete.type := htype
      rw [operationDeserialize, htype]
      rfl
    | setData r =>
      cases result <;> first | exact hsucceeds.elim | skip
      have htype : header.type = some SetData.type := htype
      obtain ⟨hstat, hlength⟩ := statUnpackFrom_wireStat hb h
      rw [operationDeserialize, htype, if_neg (by decide), if_neg (by decide), if_pos rfl, hstat,
        hlength]
      rfl
    | checkVersion r =>
      cases result <;> first | exact hsucceeds.elim | skip
      cases hb
      have htype : header.type = some CheckVersion.type := htype
      rw [operationDeserialize, htype]
      rfl
  · have htype : header.type = some (-1) := htype
    rw [operationDeserialize, htype, if_neg (by decide), if_neg (by decide), if_neg (by decide),
      if_neg (by decide), if_pos rfl, intUnpackFrom_located hb h]
    dsimp only [bind, Except.bind]
    rw [EXCEPTIONS_of_mem hcode, intPack_length hb]
    rfl

theorem truthy_result (ha : a.Succeeds ∨ a.Fails) : a.result.truthy = true := by
  obtain ⟨operation, result, err⟩ := a
  rcases ha with hsucceeds | ⟨code, -, rfl⟩
  · cases result with
    | path p =>
      cases operation <;> first | exact hsucceeds.elim | skip
      have hne : p ≠ [] := hsucceeds
      simpa [OperationResult.truthy] using hne
    | ack => rfl
    | stat st => rfl
    | error e => rfl
  · rfl

end OperationAnswer

theorem length_le_writeMany (h : writeMany OperationAnswer.wire answers = .ok b) :
    answers.length ≤ b.length := by
  induction answers generalizing b with
  | nil => exact Nat.zero_le _
  | cons a answers ih =>
    obtain ⟨first, hfirst, h⟩ := bind_eq_ok h
    obtain ⟨rest, hrest, h⟩ := bind_eq_ok h
    obtain rfl := pure_inj h
    obtain ⟨header, body, hheader, -, rfl⟩ := OperationAnswer.wire_eq_ok hfirst
    have hlength := multiHeader_length hheader
    have hle := ih hrest
    simp only [List.length_cons, List.length_append]
    omega

/-- The loop, standing behind the header of `a`: it yields the result of `a` and of every answer
that follows, in order. -/
theorem operationsDeserialize_wire {a : OperationAnswer} {body rest last : Bytes} {fuel : Nat}
    (ha : ∀ a' ∈ a :: answers, a'.Succeeds ∨ a'.Fails) (hfuel : answers.length + 2 ≤ fuel)
    (hbody : OperationAnswer.wireResult a.result = .ok body)
    (hrest : writeMany OperationAnswer.wire answers = .ok rest)
    (hlast : multiHeaderSerialize (-1) true (-1) = .ok last)
    (h : Located buffer offset (body ++ rest ++ last)) {header : MultiHeader}
    (htype : header.type = some a.type) (hdone : header.done = false)
    (response : Option OperationResult) (results : List OperationResult) :
    operationsDeserialize buffer fuel header response offset results =
      .ok (results ++ (a :: answers).map OperationAnswer.result) := by
  induction answers generalizing a body rest fuel header response results offset with
  | nil =>
    obtain ⟨fuel, rfl⟩ : ∃ k, fuel = k + 2 := ⟨fuel - 2, by simp at hfuel; omega⟩
    obtain rfl := pure_inj hrest
    rw [List.append_nil] at h
    obtain ⟨hhere, hend⟩ := Located.append_iff.mp h
    have hthis := ha a List.mem_cons_self
    rw [operationsDeserialize, hdone, if_neg Bool.false_ne_true,
      OperationAnswer.operationDeserialize_wire hthis hbody hhere htype]
    dsimp only [bind, Except.bind]
    rw [(MultiHeader.deserialize_serialize hlast hend).1]
    dsimp only
    rw [operationsDeserialize, if_pos rfl, Option.filter_some, if_pos
      (OperationAnswer.truthy_result hthis)]
    rfl
  | cons next answers ih =>
    obtain ⟨fuel, rfl⟩ : ∃ k, fuel = k + 1 := ⟨fuel - 1, by omega⟩
    obtain ⟨first, hfirst, hrest⟩ := bind_eq_ok hrest
    obtain ⟨rest, hothers, hrest⟩ := bind_eq_ok hrest
    obtain rfl := pure_inj hrest
    obtain ⟨nextHeader, nextBody, hheader, hnext, rfl⟩ := OperationAnswer.wire_eq_ok hfirst
    have hthis := ha a List.mem_cons_self
    simp only [List.append_assoc] at h
    obtain ⟨hhere, h⟩ := Located.append_iff.mp h
    obtain ⟨hstart, h⟩ := Located.append_iff.mp h
    rw [multiHeader_length hheader] at h
    rw [operationsDeserialize, hdone, if_neg Bool.false_ne_true,
      OperationAnswer.operationDeserialize_wire hthis hbody hhere htype]
    dsimp only [bind, Except.bind]
    rw [(MultiHeader.deserialize_serialize hheader hstart).1]
    dsimp only
    rw [ih (fun a' ha' => ha a' (List.mem_cons_of_mem a ha')) (by simp at hfuel; omega) hnext
      hothers (by rwa [List.append_assoc]) rfl rfl, Option.filter_some, if_pos
      (OperationAnswer.truthy_result hthis)]
    simp

/-- The first turn, which reads no result, and the loop behind the first header. -/
theorem transactionDeserialize_wire (ha : ∀ a ∈ answers, a.Succeeds ∨ a.Fails)
    (hb : wireMulti answers = .ok b) (h : Located buffer offset b) :
    transactionDeserialize buffer offset = .ok (answers.map OperationAnswer.result) := by
  obtain ⟨body, hbody, hb⟩ := bind_eq_ok hb
  obtain ⟨last, hlast, hb⟩ := bind_eq_ok hb
  obtain rfl := pure_inj hb
  have hnone : operationDeserialize ⟨none, false, none⟩ none buffer offset = .ok (none, offset) := rfl
  rw [transactionDeserialize, operationsDeserialize, if_neg Bool.false_ne_true, hnone]
  dsimp only [bind, Except.bind]
  cases answers with
  | nil =>
    obtain rfl := pure_inj hbody
    rw [(MultiHeader.deserialize_serialize hlast h).1]
    rfl
  | cons a answers =>
    obtain ⟨first, hfirst, hbody⟩ := bind_eq_ok hbody
    obtain ⟨rest, hrest, hbody⟩ := bind_eq_ok hbody
    obtain rfl := pure_inj hbody
    obtain ⟨header, result, hheader, hresult, rfl⟩ := OperationAnswer.wire_eq_ok hfirst
    -- every answer takes a byte at least, so the fuel lasts
    have hfuel : answers.length + 2 ≤ buffer.length + 1 := by
      have hlength := length_le_writeMany hrest
      have hheaderLength := multiHeader_length hheader
      have hle := h.length_le
        (List.length_pos_iff.mp (by simp only [List.length_append, hheaderLength]; omega))
      simp only [List.length_append, hheaderLength] at hle
      omega
    simp only [List.append_assoc] at h
    obtain ⟨hstart, h⟩ := Located.append_iff.mp h
    rw [multiHeader_length hheader] at h
    rw [(MultiHeader.deserialize_serialize hheader hstart).1]
    dsimp only
    rw [operationsDeserialize_wire ha hfuel hresult hrest hlast (by rwa [List.append_assoc]) rfl rfl]
    rfl

end Reply

/-! ### Any buffer -/

/-- The loop of `Transaction.deserialize` comes to its end with `out`, and calls
`MultiHeader.deserialize` `headers` times on its way. -/
inductive Loops (bytes : Bytes) : MultiHeader → Option OperationResult → Nat →
    List OperationResult → (headers : Nat) → Except Exn (List OperationResult) → Prop
  | done {header response offset results} : header.done = true →
      Loops bytes header response offset results 0 (.ok results)
  | body {header response offset results e} : header.done = false →
      operationDeserialize header response bytes offset = .error e →
      Loops bytes header response offset results 0 (.error e)
  | header {header response offset results response' offset' e} : header.done = false →
      operationDeserialize header response bytes offset = .ok (response', offset') →
      MultiHeader.deserialize bytes offset' = .error e →
      Loops bytes header response offset results 1 (.error e)
  | turn {header response offset results response' offset' header' offset'' headers out} :
      header.done = false →
      operationDeserialize header response bytes offset = .ok (response', offset') →
      MultiHeader.deserialize bytes offset' = .ok (header', offset'') →
      Loops bytes header' response' offset''
        (results ++ (response'.filter OperationResult.truthy).toList) headers out →
      Loops bytes header response offset results (headers + 1) out

section Loop

variable {bytes : Bytes} {offset offset' : Nat} {header : MultiHeader}
  {response response' : Option OperationResult}

theorem readString_le {s : Option PyStr} (h : readString bytes offset = .ok (s, offset')) :
    offset ≤ offset' := by
  obtain ⟨length, -, h⟩ := bind_eq_ok h
  split at h
  · have hoffset := (Prod.mk.inj (pure_inj h)).2
    omega
  · obtain ⟨s', -, h⟩ := bind_eq_ok h
    have hoffset := (Prod.mk.inj (pure_inj h)).2
    omega

theorem operationDeserialize_le
    (h : operationDeserialize header response bytes offset = .ok (response', offset')) :
    offset ≤ offset' := by
  unfold operationDeserialize at h
  split at h
  · obtain ⟨⟨path, next⟩, hread, h⟩ := bind_eq_ok h
    rw [← (Prod.mk.inj (pure_inj h)).2]
    exact readString_le hread
  split at h
  · exact (Prod.mk.inj (pure_inj h)).2.le
  split at h
  · obtain ⟨stat, -, h⟩ := bind_eq_ok h
    rw [← (Prod.mk.inj (pure_inj h)).2]
    exact Nat.le_add_right _ _
  split at h
  · exact (Prod.mk.inj (pure_inj h)).2.le
  split at h
  · obtain ⟨err, -, h⟩ := bind_eq_ok h
    obtain ⟨e, -, h⟩ := bind_eq_ok h
    rw [← (Prod.mk.inj (pure_inj h)).2]
    exact Nat.le_add_right _ _
  · exact (Prod.mk.inj (pure_inj h)).2.le

/-- A header takes nine bytes of the buffer. -/
theorem MultiHeader.deserialize_le (h : MultiHeader.deserialize bytes offset = .ok (header, offset')) :
    offset' = offset + 9 ∧ offset + 9 ≤ bytes.length := by
  obtain ⟨t, -, h⟩ := bind_eq_ok h
  obtain ⟨done, -, h⟩ := bind_eq_ok h
  obtain ⟨err, herr, h⟩ := bind_eq_ok h
  have hle := intUnpackFrom_le herr
  exact ⟨(Prod.mk.inj (pure_inj h)).2.symm, by omega⟩

/-- What is left of the buffer bounds the headers that the loop can still read, and with more fuel
than that the model of the loop is the loop. -/
theorem loops (bytes : Bytes) (header : MultiHeader) (response : Option OperationResult)
    (offset : Nat) (results : List OperationResult) :
    ∃ headers ≤ (bytes.length - offset) / 9 + 1, ∃ out,
      Loops bytes header response offset results headers out ∧
        ∀ fuel, headers < fuel →
          operationsDeserialize bytes fuel header response offset results = out := by
  -- by induction on the bytes that are left
  induction hleft : bytes.length - offset using Nat.strong_induction_on
    generalizing header response offset results with
  | _ left ih =>
    have hfuel : ∀ {n fuel : Nat}, n < fuel → ∃ k, fuel = k + 1 ∧ n ≤ k := fun h =>
      ⟨_, (Nat.sub_add_cancel (Nat.one_le_of_lt h)).symm, Nat.le_sub_one_of_lt h⟩
    cases hdone : header.done with
    | true =>
      refine ⟨0, Nat.zero_le _, _, .done hdone, fun fuel h => ?_⟩
      obtain ⟨fuel, rfl, -⟩ := hfuel h
      rw [operationsDeserialize, if_pos hdone]
      rfl
    | false =>
      cases hbody : operationDeserialize header response bytes offset with
      | error e =>
        refine ⟨0, Nat.zero_le _, _, .body hdone hbody, fun fuel h => ?_⟩
        obtain ⟨fuel, rfl, -⟩ := hfuel h
        rw [operationsDeserialize, hdone, if_neg Bool.false_ne_true, hbody]
        rfl
      | ok read =>
        obtain ⟨response', offset'⟩ := read
        have hbehind := operationDeserialize_le hbody
        cases hheader : MultiHeader.deserialize bytes offset' with
        | error e =>
          refine ⟨1, Nat.le_add_left _ _, _, .header hdone hbody hheader, fun fuel h => ?_⟩
          obtain ⟨fuel, rfl, -⟩ := hfuel h
          rw [operationsDeserialize, hdone, if_neg Bool.false_ne_true, hbody]
          dsimp only [bind, Except.bind]
          rw [hheader]
        | ok next =>
          obtain ⟨header', offset''⟩ := next
          obtain ⟨rfl, hle⟩ := MultiHeader.deserialize_le hheader
          obtain ⟨headers, hheaders, out, hloops, hmodel⟩ :=
            ih (bytes.length - (offset' + 9)) (by omega) header' response' (offset' + 9)
              (results ++ (response'.filter OperationResult.truthy).toList) rfl
          refine ⟨headers + 1, by omega, out, .turn hdone hbody hheader hloops, fun fuel h => ?_⟩
          obtain ⟨fuel, rfl, hmore⟩ := hfuel h
          rw [operationsDeserialize, hdone, if_neg Bool.false_ne_true, hbody]
          dsimp only [bind, Except.bind]
          rw [hheader]
          exact hmodel fuel hmore

end Loop

/-- `unchroot` of a transaction: what becomes of the `i`-th result. -/
theorem getElem?_unchrootResults (c : Client) (results : List OperationResult) (i : Nat) :
    (∀ p, results[i]? = some (.path p) →
      (c.unchrootResults results)[i]? = some (.path (c.unchroot p))) ∧
    ((∀ p, results[i]? ≠ some (.path p)) → (c.unchrootResults results)[i]? = results[i]?) := by
  rw [Client.unchrootResults, List.getElem?_map]
  constructor
  · intro p h
    rw [h]
    rfl
  · intro h
    cases hresult : results[i]? with
    | none => rfl
    | some result =>
      cases result with
      | path p => exact absurd hresult (h p)
      | ack => rfl
      | stat st => rfl
      | error e => rfl

/-- The reply to a transaction is read as the results of its operations, in their order, wherever it
stands; `unchroot` changes the paths among them and nothing else; and over any buffer the loop ends
after at most one header for each nine bytes, and one. -/
theorem transaction_results :
    (∀ (answers : List OperationAnswer) (before b after : Bytes),
      (∀ a ∈ answers, a.Succeeds) ∨ (∀ a ∈ answers, a.Fails) → wireMulti answers = .ok b →
      (Request.transaction (answers.map OperationAnswer.operation)).deserialize
          (before ++ b ++ after) before.length =
        .ok (.results (answers.map OperationAnswer.result))) ∧
    (∀ (c : Client) (results : List OperationResult) (i : Nat),
      (∀ p, results[i]? = some (.path p) →
        (c.unchrootResults results)[i]? = some (.path (c.unchroot p))) ∧
      ((∀ p, results[i]? ≠ some (.path p)) → (c.unchrootResults results)[i]? = results[i]?)) ∧
    ∀ (bytes : Bytes) (offset : Nat), ∃ headers ≤ bytes.length / 9 + 1,
      Loops bytes ⟨none, false, none⟩ none offset [] headers
        (transactionDeserialize bytes offset) := by
  refine ⟨fun answers before b after hanswers hb => ?_, getElem?_unchrootResults,
    fun bytes offset => ?_⟩
  · have hread : transactionDeserialize (before ++ b ++ after) before.length =
        .ok (answers.map OperationAnswer.result) := transactionDeserialize_wire
      (hanswers.elim (fun h a ha => .inl (h a ha)) fun h a ha => .inr (h a ha)) hb (.here _ _ _)
    rw [Request.deserialize, hread]
    rfl
  · obtain ⟨headers, hheaders, out, hloops, hmodel⟩ := loops bytes ⟨none, false, none⟩ none offset []
    have hless : (bytes.length - offset) / 9 ≤ bytes.length / 9 :=
      Nat.div_le_div_right (Nat.sub_le _ _)
    refine ⟨headers, by omega, ?_⟩
    rw [transactionDeserialize, hmodel _ (by omega)]
    exact hloops

/-- A node is created and the version of another one checked. -/
def createdAndChecked : List OperationAnswer :=
  [⟨.create ⟨str "/app/a", some [120], OPEN_ACL_UNSAFE, 0⟩, .path (str "/app/a"), 0⟩,
    ⟨.checkVersion ⟨str "/app/b", 3⟩, .ack, 0⟩]

theorem transaction_results_two : ∃ b, wireMulti createdAndChecked = .ok b ∧
    (Request.transaction (createdAndChecked.map OperationAnswer.operation)).deserialize
        ([1, 2] ++ b ++ [3]) 2 = .ok (.results [.path (str "/app/a"), .ack]) := by
  have hsucceeds : ∀ a ∈ createdAndChecked, a.Succeeds := by
    intro a ha
    rcases List.mem_cons.mp ha with rfl | ha
    · exact List.cons_ne_nil _ _
    · obtain rfl := List.mem_singleton.mp ha
      exact trivial
  exact ⟨_, rfl, transaction_results.1 createdAndChecked [1, 2] _ [3] (.inl hsucceeds) rfl⟩

end Kazoo
