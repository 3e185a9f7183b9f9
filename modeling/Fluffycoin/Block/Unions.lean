import Fluffycoin.Block.MineAction
import Fluffycoin.Utils.ObjectStore
import Fluffycoin.Utils.Tagged

/-!
# The tags and pointers of the block objects

`Block`, `Transaction` and `MineAction` (`src/block`) hold a tag and one `unique_ptr` for each
alternative, and keep them in step by hand: in the constructors, the setters, the move and copy
operators and `fromAsn1`. The rest of the development takes that for granted, where a block is one
of its alternatives (`Block/Objects.lean`). Here the objects have their members.

* An object is a `Tagged`: the tag, and the pointers by alternative. A structure of the
  `ASN1_CHOICE` is a `Tagged.Choice`; its type number is any `int` (`-1` in a fresh one), and where
  it is that of an alternative the union has one (`Schema.Value`). The `schema` of a class has the
  numbers of its `enum` and the `toAsn1` and `fromAsn1` of the alternatives.
* `Block.objects`, `Transaction.objects` and `MineAction.objects` are the operations of the classes:
  what a call on one object does (`Member`), and how objects are moved and copied. Only blocks can
  be copied.
* A transaction has members beside the union. `toAsn1` writes them to the strings the structure has
  (`fromBinInto`), whereas the alternatives are written to fresh structures.

## Results

* **`unions_stay_tagged`**: over every sequence of operations, in every object, the pointer the tag
  selects is set and no other, and no operation dereferences a null pointer. Writing an object and
  reading it back gives the same, whatever structure it is written to and whatever object it is read
  into; for a transaction if, and only if, `ASN1_STRING_set` refuses none of its four byte strings.
* `Block.copied_eq`, `Transaction.move_eq`: on what the objects hold, copies and moves are
  `copyAssign` and `moveAssign` of `Block/Objects.lean`. `MineAction.read_write_of_fits`: a mining
  action whose strings and numbers fit comes back as it was.
-/

namespace Fluffycoin

open Fluffycoin.Ossl
open ObjectStore (Class Keeps Op)
open Tagged (wellTagged_reset wellTagged_set wellTagged_iff)

/-- What is written and read back depends on the object alone. -/
def WrittenAlike {Obj Str : Type} (Valid : Str → Prop) (toAsn1 : Obj → Str → Option Str)
    (fromAsn1 : Obj → Str → Option Obj) (x : Obj) : Prop :=
  ∀ t t' r r', Valid t → Valid t' →
    (toAsn1 x t).bind (fromAsn1 r) = (toAsn1 x t').bind (fromAsn1 r')

/-! ## Blocks -/

namespace Block

/-- `Block::Type`, but `None`. -/
inductive Alternative where
  | genesis | reconciliation | node
  deriving DecidableEq, Repr

/-- What the pointer of an alternative points to. -/
def Alternative.Object : Alternative → Type
  | .genesis => Genesis
  | .reconciliation => Reconciliation
  | .node => Node

/-- What the pointer of the union points to. -/
def Alternative.Structure : Alternative → Type
  | .genesis => Asn1.Genesis
  | .reconciliation => Asn1.Reconciliation
  | .node => Asn1.Node

def schema : Tagged.Schema Alternative.Object Alternative.Structure where
  code
    | .genesis => 1
    | .reconciliation => 2
    | .node => 3
  select type :=
    if type = 1 then some .genesis
    else if type = 2 then some .reconciliation
    else if type = 3 then some .node
    else .none
  select_code i := by cases i <;> rfl
  select_zero := rfl
  new
    | .genesis => (default : Asn1.Genesis)
    | .reconciliation => (default : Asn1.Reconciliation)
    | .node => (default : Asn1.Node)
  put
    | .genesis => Genesis.toAsn1
    | .reconciliation => Reconciliation.toAsn1
    | .node => Node.toAsn1
  get
    | .genesis => Genesis.fromAsn1
    | .reconciliation => Reconciliation.fromAsn1
    | .node => Node.fromAsn1

/-- The members of a `block::Block`. -/
abbrev Members := Tagged Alternative.Object

/-- What the tag says the block holds, read through the pointer: `DbIntegrator::integrate`
dereferences the pointer of the type it has checked for, and no other. -/
def held (b : Members) : Option Block :=
  match b.tag with
  | .none => some .none
  | some .genesis => (b.ptr .genesis).map .genesis
  | some .reconciliation => (b.ptr .reconciliation).map .reconciliation
  | some .node => (b.ptr .node).map .node

/-- The calls on one block. -/
inductive Member where
  | setGenesis (g : Genesis)
  | setReconciliation (r : Reconciliation)
  | setNode (n : Node)
  | fromAsn1 (t : schema.Value)
  | toAsn1 (t : schema.Value)
  | integrate

def objects : Class Members Member where
  new := {}
  act
    | .setGenesis g, b => some (b.set .genesis g)
    | .setReconciliation r, b => some (b.set .reconciliation r)
    | .setNode n, b => some (b.set .node n)
    | .fromAsn1 t, b => b.read schema t
    | .toAsn1 t, b => (b.write schema t).map fun _ => b
    | .integrate, b => (held b).map fun _ => b
  move := Tagged.move
  copy := some fun b rhs =>
    -- `asn1::Block t = {}`
    (rhs.write schema ⟨0, .none⟩).bind (b.read schema)

/-- A block that is well tagged holds one of its alternatives, or none. -/
theorem exists_held {b : Members} (h : b.WellTagged) : ∃ v, held b = some v := by
  rcases wellTagged_iff.mp h with rfl | ⟨i, v, rfl⟩
  · exact ⟨.none, rfl⟩
  · cases i with
    | genesis => exact ⟨.genesis v, rfl⟩
    | reconciliation => exact ⟨.reconciliation v, rfl⟩
    | node => exact ⟨.node v, rfl⟩

/-- **A copied block holds what `copyAssign` gives.** -/
theorem copied_eq {rhs : Members} (h : rhs.WellTagged) (b : Members) :
    (objects.copied b rhs).bind held = (held rhs).map copyAssign := by
  show ((rhs.write schema ⟨0, .none⟩).bind (b.read schema)).bind held = _
  rcases wellTagged_iff.mp h with rfl | ⟨i, v, rfl⟩
  · rfl
  · rw [Tagged.write_set, Option.bind_some, Tagged.read_code, Option.bind_some]
    cases i <;> rfl

/-- The operations of blocks keep their tags right. -/
theorem keeps_wellTagged : Keeps objects Tagged.WellTagged where
  new := wellTagged_reset {}
  act a b h := by
    cases a with
    | setGenesis g => exact ⟨_, rfl, wellTagged_set b _ _⟩
    | setReconciliation r => exact ⟨_, rfl, wellTagged_set b _ _⟩
    | setNode n => exact ⟨_, rfl, wellTagged_set b _ _⟩
    | fromAsn1 t => exact b.read_value t
    | toAsn1 t => exact ⟨b, h.map_write schema t, h⟩
    | integrate =>
      obtain ⟨v, hv⟩ := exists_held h
      exact ⟨b, congrArg (Option.map fun _ => b) hv, h⟩
  move b rhs _ hrhs := hrhs.move b
  copied b rhs _ hrhs := by
    obtain ⟨t, hwrite, hvalid⟩ := hrhs.write schema ⟨0, .none⟩
    obtain ⟨b', hread, hb'⟩ := b.read_value ⟨t, hvalid⟩
    exact ⟨b', (congrArg (Option.bind · (b.read schema)) hwrite).trans hread, hb'⟩

end Block

/-! ## Mining actions -/

namespace MineAction

/-- `MineAction::Action`, but `None`. -/
inductive Alternative where
  | tregister | unregister | credentialChange
  deriving DecidableEq, Repr

def Alternative.Object : Alternative → Type
  | .tregister => Register
  | .unregister => Unregister
  | .credentialChange => CredentialChange

def Alternative.Structure : Alternative → Type
  | .tregister => Asn1.Register
  | .unregister => Asn1.Unregister
  | .credentialChange => Asn1.CredentialChange

def schema : Tagged.Schema Alternative.Object Alternative.Structure where
  code
    | .tregister => 1
    | .unregister => 2
    | .credentialChange => 3
  select type :=
    if type = 1 then some .tregister
    else if type = 2 then some .unregister
    else if type = 3 then some .credentialChange
    else none
  select_code i := by cases i <;> rfl
  select_zero := rfl
  new
    | .tregister => (default : Asn1.Register)
    | .unregister => (default : Asn1.Unregister)
    | .credentialChange => (default : Asn1.CredentialChange)
  put
    | .tregister => Register.toAsn1
    | .unregister => Unregister.toAsn1
    | .credentialChange => CredentialChange.toAsn1
  get
    | .tregister => Register.fromAsn1
    | .unregister => Unregister.fromAsn1
    | .credentialChange => CredentialChange.fromAsn1

/-- The members of a `block::MineAction`. -/
abbrev Members := Tagged Alternative.Object

/-- The calls on one mining action. -/
inductive Member where
  | setRegister (r : Register)
  | setUnregister (u : Unregister)
  | setCredentialChange (c : CredentialChange)
  | fromAsn1 (t : schema.Value)
  | toAsn1 (t : schema.Value)

def objects : Class Members Member where
  new := {}
  act
    | .setRegister r, x => some (x.set .tregister r)
    | .setUnregister u, x => some (x.set .unregister u)
    | .setCredentialChange c, x => some (x.set .credentialChange c)
    | .fromAsn1 t, x => x.read schema t
    | .toAsn1 t, x => (x.write schema t).map fun _ => x
  move := Tagged.move

/-- The operations of mining actions keep their tags right. -/
theorem keeps_wellTagged : Keeps objects Tagged.WellTagged where
  new := wellTagged_reset {}
  act a x h := by
    cases a with
    | setRegister r => exact ⟨_, rfl, wellTagged_set x _ _⟩
    | setUnregister u => exact ⟨_, rfl, wellTagged_set x _ _⟩
    | setCredentialChange c => exact ⟨_, rfl, wellTagged_set x _ _⟩
    | fromAsn1 t => exact x.read_value t
    | toAsn1 t => exact ⟨x, h.map_write schema t, h⟩
  move x rhs _ hrhs := hrhs.move x
  copied x _ hx _ := ⟨x, rfl, hx⟩

/-- What the action holds fits. -/
structure Fits (x : Members) : Prop where
  tregister : ∀ r : Register, x.ptr .tregister = some r → r.Fits
  unregister : ∀ u : Unregister, x.ptr .unregister = some u → u.Fits
  credentialChange : ∀ c : CredentialChange, x.ptr .credentialChange = some c → c.Fits

/-- **A mining action that fits comes back from ASN.1 as it was.** -/
theorem read_write_of_fits {x : Members} (h : x.WellTagged) (hf : Fits x) (r : Members)
    (t : Tagged.Choice Alternative.Structure) :
    (x.write schema t).bind (r.read schema) = some x := by
  rcases wellTagged_iff.mp h with rfl | ⟨i, v, rfl⟩
  · exact Tagged.read_zero schema r
  · rw [Tagged.write_set, Option.bind_some, Tagged.read_code]
    have hback : schema.get i (schema.put i v (schema.new i)) = v := by
      cases i with
      | tregister => exact Register.fromAsn1_toAsn1 (hf.tregister v rfl) default
      | unregister => exact Unregister.fromAsn1_toAsn1 (hf.unregister v rfl) default
      | credentialChange =>
        exact CredentialChange.fromAsn1_toAsn1 (hf.credentialChange v rfl) default
    rw [hback]

end MineAction

/-! ## Transactions -/

namespace Transaction

/-- `Transaction::Action`, but `None`. -/
inductive Alternative where
  | transfer
  deriving DecidableEq, Repr

def Alternative.Object : Alternative → Type
  | .transfer => Transfer

def Alternative.Structure : Alternative → Type
  | .transfer => Asn1.Transfer

def schema : Tagged.Schema Alternative.Object Alternative.Structure where
  code
    | .transfer => 1
  select type := if type = 1 then some .transfer else none
  select_code i := by cases i; rfl
  select_zero := rfl
  new
    | .transfer => (default : Asn1.Transfer)
  put
    | .transfer => Transfer.toAsn1
  get
    | .transfer => Transfer.fromAsn1

/-- The members of a `block::Transaction`. -/
structure Members where
  choice : Tagged Alternative.Object := {}
  time : UInt64 := 0
  signer : Bytes := []
  signerKey : Bytes := []
  newAddress : Bytes := []
  signature : Bytes := []

/-- `asn1::TransactionContent`, with the type number of the action. -/
structure Content where
  time : Int
  action : Tagged.Choice Alternative.Structure
  signer : Asn1.Str
  signerKey : Asn1.Str
  newAddress : Asn1.Str

/-- `asn1::Transaction`. -/
structure Structure where
  content : Content
  signature : Asn1.Str

/-- The action has the alternative that its type number says. -/
def Structure.Valid (t : Structure) : Prop := t.content.action.Valid schema

namespace Members

def WellTagged (x : Members) : Prop := x.choice.WellTagged

def toAsn1 (x : Members) (t : Structure) : Option Structure :=
  (x.choice.write schema t.content.action).map fun action =>
    { t with
      content := { t.content with
        action := action
        time := fromUInt64 x.time
        signer := fromBinInto t.content.signer x.signer
        signerKey := fromBinInto t.content.signerKey x.signerKey
        newAddress := fromBinInto t.content.newAddress x.newAddress }
      signature := fromBinInto t.signature x.signature }

def fromAsn1 (x : Members) (t : Structure) : Option Members :=
  (x.choice.read schema t.content.action).map fun choice =>
    { x with
      choice := choice
      time := toUInt64 t.content.time
      signer := toBin t.content.signer
      signerKey := toBin t.content.signerKey
      newAddress := toBin t.content.newAddress
      signature := toBin t.signature }

/-- The two transactions after `x = std::move(rhs)`: the tags and pointers change, nothing else. -/
def move (x rhs : Members) : Members × Members :=
  let choices := x.choice.move rhs.choice
  ({ x with choice := choices.1 }, { rhs with choice := choices.2 })

end Members

/-- What the tag says the transaction holds, with the other members. -/
def held (x : Members) : Option Transaction :=
  let action : Option Action := match x.choice.tag with
    | none => some .none
    | some .transfer => (x.choice.ptr .transfer).map .transfer
  action.map fun a =>
    { action := a, time := x.time, signer := x.signer, signerKey := x.signerKey,
      newAddress := x.newAddress, signature := x.signature }

/-- The calls on one transaction. -/
inductive Member where
  | setTransfer (transfer : Transfer)
  | setTime (time : UInt64)
  | setSigner (signer : Bytes)
  | setSignerKey (signerKey : Bytes)
  | setNewAddress (newAddress : Bytes)
  | setSignature (signature : Bytes)
  | fromAsn1 (t : { t : Structure // t.Valid })
  | toAsn1 (t : { t : Structure // t.Valid })

def objects : Class Members Member where
  new := {}
  act
    | .setTransfer transfer, x => some { x with choice := x.choice.set .transfer transfer }
    | .setTime time, x => some { x with time := time }
    | .setSigner signer, x => some { x with signer := signer }
    | .setSignerKey signerKey, x => some { x with signerKey := signerKey }
    | .setNewAddress newAddress, x => some { x with newAddress := newAddress }
    | .setSignature signature, x => some { x with signature := signature }
    | .fromAsn1 t, x => x.fromAsn1 t
    | .toAsn1 t, x => (x.toAsn1 t).map fun _ => x
  move := Members.move

/-- **A moved transaction holds what `moveAssign` gives**, and the other one no action any more. -/
theorem move_eq {x rhs : Members} {y z : Transaction} (hx : held x = some y)
    (hrhs : held rhs = some z) :
    held (x.move rhs).1 = some (moveAssign y z) ∧
      held (x.move rhs).2 = some { z with action := .none } := by
  obtain ⟨a, -, rfl⟩ := Option.map_eq_some_iff.mp hx
  obtain ⟨b, hb, rfl⟩ := Option.map_eq_some_iff.mp hrhs
  refine ⟨?_, rfl⟩
  exact Option.map_eq_some_iff.mpr ⟨b, hb, rfl⟩

theorem Members.WellTagged.toAsn1 {x : Members} (h : x.WellTagged) (t : Structure) :
    ∃ t', x.toAsn1 t = some t' := by
  obtain ⟨action, hwrite, -⟩ := Tagged.WellTagged.write schema h t.content.action
  exact ⟨_, congrArg (Option.map _) hwrite⟩

/-- The operations of transactions keep their tags right. -/
theorem keeps_wellTagged : Keeps objects Members.WellTagged where
  new := wellTagged_reset {}
  act a x h := by
    cases a with
    | setTransfer transfer => exact ⟨_, rfl, wellTagged_set x.choice _ _⟩
    | setTime time => exact ⟨_, rfl, h⟩
    | setSigner signer => exact ⟨_, rfl, h⟩
    | setSignerKey signerKey => exact ⟨_, rfl, h⟩
    | setNewAddress newAddress => exact ⟨_, rfl, h⟩
    | setSignature signature => exact ⟨_, rfl, h⟩
    | fromAsn1 t =>
      obtain ⟨choice, hread, hchoice⟩ := x.choice.read_value ⟨t.val.content.action, t.property⟩
      exact ⟨_, congrArg (Option.map _) hread, hchoice⟩
    | toAsn1 t =>
      obtain ⟨t', ht'⟩ := h.toAsn1 t
      exact ⟨x, congrArg (Option.map fun _ => x) ht', h⟩
  move x rhs _ hrhs := Tagged.WellTagged.move hrhs x.choice
  copied x _ hx _ := ⟨x, rfl, hx⟩

/-- `ASN1_STRING_set` refuses none of the byte strings that are written to the structure's own. -/
structure Writable (x : Members) : Prop where
  signer : Ossl.Accepted x.signer
  signerKey : Ossl.Accepted x.signerKey
  newAddress : Ossl.Accepted x.newAddress
  signature : Ossl.Accepted x.signature

theorem writable_of_short {x : Members} (hsigner : Short x.signer) (hsignerKey : Short x.signerKey)
    (hnewAddress : Short x.newAddress) (hsignature : Short x.signature) : Writable x :=
  ⟨hsigner.accepted, hsignerKey.accepted, hnewAddress.accepted, hsignature.accepted⟩

/-- What comes back from a structure, with what each of its strings held before. -/
theorem toAsn1_bind_fromAsn1 (x r : Members) (t : Structure) :
    (x.toAsn1 t).bind r.fromAsn1 =
      ((x.choice.write schema t.content.action).bind (r.choice.read schema)).map fun choice =>
        { choice := choice
          time := toUInt64 (fromUInt64 x.time)
          signer := toBin (fromBinInto t.content.signer x.signer)
          signerKey := toBin (fromBinInto t.content.signerKey x.signerKey)
          newAddress := toBin (fromBinInto t.content.newAddress x.newAddress)
          signature := toBin (fromBinInto t.signature x.signature) } := by
  unfold Members.toAsn1
  cases x.choice.write schema t.content.action with
  | none => rfl
  | some action => simp only [Members.fromAsn1, Option.map_some, Option.bind_some]

/-- A structure without an action, whose strings all hold the same. -/
def Structure.filled (old : Asn1.Str) : Structure := ⟨⟨0, ⟨0, none⟩, old, old, old⟩, old⟩

theorem Structure.valid_filled (old : Asn1.Str) : (filled old).Valid := fun i hi =>
  absurd (schema.select_zero.symm.trans hi) (Option.some_ne_none i).symm

theorem toBin_inj {a b : Asn1.Str} (h : toBin a = toBin b) : a = b := Asn1.Str.ext h

/-- **A transaction is written alike exactly if all its byte strings are accepted.** -/
theorem writtenAlike_iff {x : Members} (h : x.WellTagged) :
    WrittenAlike Structure.Valid Members.toAsn1 Members.fromAsn1 x ↔ Writable x := by
  constructor
  · intro halike
    -- into two structures whose strings differ everywhere
    have hone : [(0 : UInt8)].length < 2 ^ 31 - 1 := by norm_num
    have hne : (default : Asn1.Str) ≠ ⟨[0], hone⟩ := fun h =>
      absurd (congrArg Asn1.Str.data h) (List.cons_ne_nil 0 []).symm
    have heq := halike (.filled default) (.filled ⟨[0], hone⟩) {} {}
      (Structure.valid_filled _) (Structure.valid_filled _)
    obtain ⟨action, hwrite, hvalid⟩ := Tagged.WellTagged.write schema h ⟨0, none⟩
    obtain ⟨choice, hread, -⟩ := Tagged.read_value {} ⟨action, hvalid⟩
    have hchoice : (x.choice.write schema ⟨0, none⟩).bind (Tagged.read schema {}) = some choice :=
      (congrArg (Option.bind · _) hwrite).trans hread
    rw [toAsn1_bind_fromAsn1, toAsn1_bind_fromAsn1] at heq
    simp only [Structure.filled, hchoice, Option.map_some, Option.some.injEq,
      Members.mk.injEq] at heq
    obtain ⟨-, -, hsigner, hsignerKey, hnewAddress, hsignature⟩ := heq
    exact ⟨accepted_of_fromBinInto_eq hne (toBin_inj hsigner),
      accepted_of_fromBinInto_eq hne (toBin_inj hsignerKey),
      accepted_of_fromBinInto_eq hne (toBin_inj hnewAddress),
      accepted_of_fromBinInto_eq hne (toBin_inj hsignature)⟩
  · rintro ⟨hsigner, hsignerKey, hnewAddress, hsignature⟩ t t' r r' - -
    rw [toAsn1_bind_fromAsn1, toAsn1_bind_fromAsn1,
      Tagged.WellTagged.read_write h t.content.action t'.content.action r.choice r'.choice]
    simp only [hsigner.fromBinInto, hsignerKey.fromBinInto, hnewAddress.fromBinInto,
      hsignature.fromBinInto]

end Transaction

/-! ## The three classes -/

theorem writtenAlike_of_wellTagged {ι : Type} [DecidableEq ι] {α β : ι → Type}
    {s : Tagged.Schema α β} {x : Tagged α} (h : x.WellTagged) :
    WrittenAlike (Tagged.Choice.Valid s) (Tagged.write s) (Tagged.read s) x :=
  fun t t' r r' _ _ => h.read_write t t' r r'

/-- **No operation breaks a tag.** For each class: all sequences of operations go through, none of
them dereferencing a null pointer, and leave objects whose pointers are as their tags say. What is
written and read back depends on the object alone, for transactions exactly if `ASN1_STRING_set`
refuses none of their byte strings, which it does not below `2^31 - 1` bytes. -/
theorem unions_stay_tagged :
    (∀ ops : List (Op Block.Member), ∃ store, Block.objects.run ops = some store ∧
      ∀ b ∈ store, b.WellTagged ∧
        WrittenAlike (Tagged.Choice.Valid Block.schema) (Tagged.write Block.schema)
          (Tagged.read Block.schema) b) ∧
    (∀ ops : List (Op Transaction.Member), ∃ store, Transaction.objects.run ops = some store ∧
      ∀ x ∈ store, x.WellTagged ∧
        (WrittenAlike Transaction.Structure.Valid Transaction.Members.toAsn1
          Transaction.Members.fromAsn1 x ↔ Transaction.Writable x) ∧
        (Short x.signer → Short x.signerKey → Short x.newAddress → Short x.signature →
          Transaction.Writable x)) ∧
    (∀ ops : List (Op MineAction.Member), ∃ store, MineAction.objects.run ops = some store ∧
      ∀ m ∈ store, m.WellTagged ∧
        WrittenAlike (Tagged.Choice.Valid MineAction.schema) (Tagged.write MineAction.schema)
          (Tagged.read MineAction.schema) m) := by
  refine ⟨fun ops => ?_, fun ops => ?_, fun ops => ?_⟩
  · obtain ⟨store, hrun, hstore⟩ := Block.keeps_wellTagged.run ops
    exact ⟨store, hrun, fun b hb => ⟨hstore b hb, writtenAlike_of_wellTagged (hstore b hb)⟩⟩
  · obtain ⟨store, hrun, hstore⟩ := Transaction.keeps_wellTagged.run ops
    exact ⟨store, hrun, fun x hx => ⟨hstore x hx, Transaction.writtenAlike_iff (hstore x hx),
      Transaction.writable_of_short⟩⟩
  · obtain ⟨store, hrun, hstore⟩ := MineAction.keeps_wellTagged.run ops
    exact ⟨store, hrun, fun m hm => ⟨hstore m hm, writtenAlike_of_wellTagged (hstore m hm)⟩⟩

/-- A signer of `2^31 - 1` bytes is refused: a transaction with it, written to a structure and read
back, has the signer the structure had. -/
theorem refused_signer_not_written :
    ∃ x, Transaction.objects.run
        [.construct, .act 0 (.setSigner (List.replicate (2 ^ 31 - 1) 1))] = some [x] ∧
      (∀ old : Asn1.Str,
        ((x.toAsn1 (.filled old)).bind (Transaction.Members.fromAsn1 {})).map (·.signer) =
          some old.data) ∧
      ¬ WrittenAlike Transaction.Structure.Valid Transaction.Members.toAsn1
        Transaction.Members.fromAsn1 x := by
  have hrefused : ¬ Ossl.Accepted (List.replicate (2 ^ 31 - 1) 1) := by
    rw [accepted_iff_of_lt (by rw [List.length_replicate]; decide), List.length_replicate]
    exact Nat.lt_irrefl _
  refine ⟨{ signer := List.replicate (2 ^ 31 - 1) 1 }, rfl, fun old => ?_, fun halike => ?_⟩
  · rw [Transaction.toAsn1_bind_fromAsn1]
    simp only [Transaction.Structure.filled, fromBinInto_of_not_accepted hrefused]
    rfl
  · have htagged : Transaction.Members.WellTagged { signer := List.replicate (2 ^ 31 - 1) 1 } :=
      wellTagged_reset {}
    exact hrefused ((Transaction.writtenAlike_iff htagged).mp halike).signer

end Fluffycoin
