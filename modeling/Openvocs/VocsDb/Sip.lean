import Openvocs.Json.Value

namespace openvocs

namespace Json

/-- The items of an array; other values have none. -/
def array_items : Json → List Json
  | array items => items
  | _ => []

/-- `ov_json_number_get`: zero for a value that is not a number. -/
def number_get : Json → Int
  | number n => n
  | _ => 0

end Json

structure SipPermission where
  caller : Option String
  callee : Option String
  loop : Option String
  from_epoch : Nat
  until_epoch : Nat
  deriving DecidableEq, Repr

/-- `uint64_from_json`: `none` for a negative number, zero for an absent one. -/
def uint64_from_json (val : Option Json) : Option Nat :=
  match (val.map Json.number_get).getD 0 with
  | .ofNat n => some (n % 2 ^ 64)
  | .negSucc _ => none

/-- `ov_sip_permission_from_json`: `none` when `ok` is set to false. -/
def sip_permission_from_json (val : Json) : Option SipPermission :=
  let caller := (val.object_get "caller").bind Json.string_get
  let callee := (val.object_get "callee").bind Json.string_get
  let loop := (val.object_get "loop").bind Json.string_get
  match uint64_from_json (val.object_get "valid_from"), uint64_from_json (val.object_get "valid_until") with
  | some from_epoch, some until_epoch =>
    if (caller.isSome || callee.isSome) && loop.isSome then
      some { caller, callee, loop, from_epoch, until_epoch }
    else none
  | _, _ => none

def sip_permission_equals (p q : SipPermission) : Bool :=
  (q.from_epoch = 0 || p.from_epoch = q.from_epoch) &&
  (q.until_epoch = 0 || p.until_epoch = q.until_epoch) &&
  p.caller = q.caller && p.callee = q.callee && p.loop = q.loop

namespace vocs_db

/-- The object collected in `*out`; it is created with the first entry. -/
abbrev Processing := Option Json

/-- `*out`, created when it is not there yet. -/
def processing_object (out : Processing) : Json := out.getD (.object [])

/-- Sets the data of a loop in `*out`. -/
def processing_put (out : Processing) (loop : String) (loopdata : Json) : Processing :=
  some ((processing_object out).object_put loop loopdata)

def add_sip_permission_for_loop (key : String) (val : Json) (out : Processing) : Bool × Processing :=
  match (val.object_get "sip").bind (fun sip => sip.object_get "whitelist") with
  | none => (true, out)
  | some whitelist =>
    let loopdata := ((processing_object out).object_get key).getD (.object [])
    match whitelist with
    | .array items => (true, processing_put out key (loopdata.object_put "permit" (.array items)))
    | _ => (false, processing_put out key (loopdata.object_put "permit" (.array [])))

/-- `revoke_calls`: `none` when a permission of one of the lists is invalid. -/
def revoke_calls (item loopdata : Json) : Option Json :=
  let permit := (((loopdata.object_get "permit").map Json.array_items).getD [])
  let found := permit.foldlM (fun found new => do
    let old_permission ← sip_permission_from_json item
    let new_permission ← sip_permission_from_json new
    pure (found || sip_permission_equals old_permission new_permission)) false
  found.map fun found =>
    if found then loopdata
    else
      let revoke := (((loopdata.object_get "revoke").map Json.array_items).getD [])
      loopdata.object_put "revoke" (.array (revoke ++ [item]))

/-- `ov_json_array_for_each` over the old whitelist: it stops at an invalid item. -/
def revoke_all : List Json → Json → Json
  | [], loopdata => loopdata
  | item :: rest, loopdata =>
    match revoke_calls item loopdata with
    | none => loopdata
    | some loopdata => revoke_all rest loopdata

def update_sip_parameter_processing (loop_id : String) (old new : Option Json) (out : Processing) :
    Bool × Processing :=
  let old_whitelist := old.bind (fun sip => sip.object_get "whitelist")
  let new_whitelist := new.bind (fun sip => sip.object_get "whitelist")
  match new_whitelist with
  | none => (false, processing_put out loop_id (.object []))
  | some whitelist =>
    let loopdata := Json.object_put (.object []) "permit" whitelist
    let loopdata := revoke_all ((old_whitelist.map Json.array_items).getD []) loopdata
    (true, processing_put out loop_id loopdata)

def check_old_loop_in_new_loops (new_loops : Json) (key : String) (loop : Json) (out : Processing) :
    Bool × Processing :=
  let new_loop := new_loops.object_get key
  update_sip_parameter_processing key (loop.object_get "sip")
    (new_loop.bind (fun l => l.object_get "sip")) out

def check_new_loop_in_old_loops (old_loops : Json) (key : String) (loop : Json) (out : Processing) :
    Bool × Processing :=
  match old_loops.object_get key with
  | some _ => (true, out)
  | none => add_sip_permission_for_loop key loop out

/-- Walks the members of an object with one of the functions above. -/
def processing_for_each (f : String → Json → Processing → Bool × Processing) (j : Json) (out : Processing) :
    Bool × Processing :=
  (j.object_for_each (fun key val out => some (f key val out)) out).getD (false, out)

/-- `check_for_sip_update`; the object `new_loop->parent` is the new object itself. -/
def check_for_sip_update (old : Option Json) (new_loops : Json) (_key : String) (_val : Json)
    (out : Processing) : Bool × Processing :=
  match old with
  | none => processing_for_each add_sip_permission_for_loop new_loops out
  | some old_loops =>
    let (_, out) := processing_for_each (check_old_loop_in_new_loops new_loops) old_loops out
    let (_, out) := processing_for_each (check_new_loop_in_old_loops old_loops) new_loops out
    (true, out)

def check_sip_processing (old : Option Json) (new : Json) (out : Processing) : Bool × Processing :=
  processing_for_each (check_for_sip_update old new) new out

end vocs_db

end openvocs
