import Aixos.Kernel.Object
import Aixos.Library.Transition

/-!
# The namespace

`namespace.c`: a table of names, each with an object, its type and default rights.

* `Namespace` — the table, and the capability tables that `aixos_namespace_open` grants into.
* `Namespace.register`, `Namespace.unregister`, `Namespace.resolve`, `Namespace.openName` — the functions.
* `Namespace.step` — one call, and its result.
-/

namespace Aixos

/-- The macros of `aixos_cfg.h` that `namespace.c` uses. -/
class NamespaceConfig where
  /-- `AIXOS_CFG_NAMESPACE_MAX` -/
  namespaceMax : ℕ
  /-- `AIXOS_CFG_CAPS_PER_TASK` -/
  capsPerTask : ℕ

/-- The values of `aixos_cfg.h` when the user overrides nothing. -/
@[reducible] def NamespaceConfig.default : NamespaceConfig where
  namespaceMax := 32
  capsPerTask := 16

/-- A C string: its characters up to the terminating zero. -/
abbrev CString := { s : List UInt8 // 0 ∉ s }

/-- `strncpy` of at most `n` characters, and a zero. -/
def CString.copy (n : ℕ) (s : CString) : CString := ⟨s.val.take n, fun h => s.property (List.mem_of_mem_take h)⟩

/-- What a name stands for. -/
structure NsValue where
  /-- `object` -/
  object : BitVec 32
  /-- `type` -/
  type : ObjType
  /-- `default_rights` -/
  rights : BitVec 16
  deriving DecidableEq

/-- `namespace_entry_t`, where `used` is 1 -/
structure NsEntry where
  /-- `name` -/
  name : CString
  value : NsValue
  deriving DecidableEq

/-- The variables of `namespace.c`, and the capability tables. -/
structure Namespace where
  /-- `ns_table`; `none` where `used` is 0 -/
  table : List (Option NsEntry)
  /-- `tcb->capabilities`; `none` where `used` is 0 -/
  capabilities : TaskId → ℕ → Option NsValue

/-- What the loop of `aixos_namespace_register` ends with. -/
inductive NsScan where
  /-- A free entry. -/
  | free (i : ℕ)
  /-- An entry with the name. -/
  | registered
  /-- The end of the table. -/
  | full
  deriving DecidableEq

/-- The calls. A name is `none` where the caller gives `NULL`. -/
inductive NsCall where
  | register (name : Option CString) (obj : BitVec 32) (type : ObjType) (rights : BitVec 16)
  | unregister (name : Option CString)
  /-- Whether the caller gives a place for the object. -/
  | resolve (name : Option CString) (obj : Bool)
  /-- The current task, and whether the caller gives a place for the capability. -/
  | openName (caller : Option TaskId) (name : Option CString) (requiredRights : BitVec 16) (cap : Bool)
  deriving DecidableEq

/-- What a call returns, with what it writes for the caller if it returns `AIXOS_OK`. -/
inductive NsResult where
  | code (r : Code)
  | resolved (v : NsValue)
  | opened (cap : ℕ)
  deriving DecidableEq

namespace Namespace

/-- The loop of `aixos_namespace_register`, from entry `i` on. -/
def scan (name : CString) : List (Option NsEntry) → ℕ → NsScan
  | [], _ => .full
  | none :: _, i => .free i
  | some e :: es, i => if e.name = name then .registered else scan name es (i + 1)

/-- The first entry with a name. -/
def find (ns : Namespace) (name : CString) : Option ℕ :=
  ns.table.findIdx? fun e => e.any fun e => e.name = name

variable [cfg : NamespaceConfig]

/-- `aixos_namespace_init` -/
def init : Namespace where
  table := List.replicate cfg.namespaceMax none
  capabilities := fun _ _ => none

/-- `sizeof(ns_table[0].name)` -/
def nameSize : ℕ := 32

omit cfg in
/-- The checks on the arguments of `aixos_namespace_register`. -/
def validArgs (name : CString) (obj : BitVec 32) (type : ObjType) : Bool :=
  decide (obj ≠ handleInvalid ∧ type ≠ .unused ∧ name.val.length ≠ 0 ∧ name.val.length < nameSize)

omit cfg in
/-- `aixos_namespace_register` -/
def register (ns : Namespace) (name : Option CString) (obj : BitVec 32) (type : ObjType) (rights : BitVec 16) :
    Namespace × Code :=
  match name with
  | none => (ns, Code.inval)
  | some name =>
    if !validArgs name obj type then (ns, Code.inval)
    else
      match scan name ns.table 0 with
      | .registered => (ns, Code.busy)
      | .full => (ns, Code.nomem)
      | .free i =>
        let e : NsEntry := { name := name.copy (nameSize - 1), value := { object := obj, type, rights } }
        ({ ns with table := ns.table.set i (some e) }, Code.ok)

omit cfg in
/-- `aixos_namespace_unregister` -/
def unregister (ns : Namespace) (name : Option CString) : Namespace × Code :=
  match name with
  | none => (ns, Code.inval)
  | some name =>
    match ns.find name with
    | none => (ns, Code.notFound)
    | some i => ({ ns with table := ns.table.set i none }, Code.ok)

omit cfg in
/-- `aixos_namespace_resolve`; a caller that gives no place for the type or the rights does not get them. -/
def resolve (ns : Namespace) (name : Option CString) (obj : Bool) : NsResult :=
  match name with
  | none => .code Code.inval
  | some name =>
    if !obj then .code Code.inval
    else
      match (ns.find name).bind fun i => (ns.table[i]?).join with
      | none => .code Code.notFound
      | some e => .resolved e.value

/-- `cap_grant_direct` -/
def capGrantDirect (ns : Namespace) (t : TaskId) (v : NsValue) : Option (Namespace × ℕ) :=
  match (List.range cfg.capsPerTask).find? fun c => (ns.capabilities t c).isNone with
  | none => none
  | some c =>
    some ({ ns with capabilities :=
      Function.update ns.capabilities t (Function.update (ns.capabilities t) c (some v)) }, c)

/-- `aixos_namespace_open` -/
def openName (ns : Namespace) (caller : Option TaskId) (name : Option CString) (requiredRights : BitVec 16)
    (cap : Bool) : Namespace × NsResult :=
  match caller with
  | none => (ns, .code Code.inval)
  | some t =>
    if !cap then (ns, .code Code.inval)
    else
      match ns.resolve name true with
      | .resolved v =>
        if v.rights &&& requiredRights ≠ requiredRights then (ns, .code Code.perm)
        else
          match ns.capGrantDirect t v with
          | none => (ns, .code Code.nomem)
          | some (ns, c) => (ns, .opened c)
      | r => (ns, r)

/-- Run a call. -/
def call (ns : Namespace) : NsCall → Namespace × NsResult
  | .register name obj type rights =>
    let r := ns.register name obj type rights
    (r.1, .code r.2)
  | .unregister name =>
    let r := ns.unregister name
    (r.1, .code r.2)
  | .resolve name obj => (ns, ns.resolve name obj)
  | .openName caller name requiredRights cap => ns.openName caller name requiredRights cap

/-- One call; every call is possible. -/
def step (ns : Namespace) (c : NsCall) : Option Namespace := some (ns.call c).1

end Namespace

end Aixos
