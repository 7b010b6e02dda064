import Openvocs.Json.Parser
import Openvocs.Lib.Calls

/-!
To read behind the end is to read outside. What is read of a number is up to `strtod`, so the scan is
given up where one begins.
-/

namespace openvocs.json.scan

open calls

/-- Why a scan is given up. -/
inductive Stop where
  | failed
  | number
  deriving DecidableEq

abbrev Scan (α : Type) := Call Stop α

def fail {α : Type} : Scan α := .stop .failed

/-- `struct json_counter`. -/
structure Counter where
  objects : Nat := 0
  arrays : Nat := 0

/-- What is left of a size behind a pointer: `size - (*next - start)`. -/
def left (start next : List Byte) (size : Int) : Int := size - (start.length - next.length)

def clear_whitespace : List Byte → Int → Scan (List Byte × Int)
  | [], size => if size < 1 then .done ([], size) else .outside
  | c :: s, size =>
    if size < 1 then .done (c :: s, size)
    else if is_whitespace c then clear_whitespace s (size - 1)
    else .done (c :: s, size)

/-- The loops over white space that end when nothing is left. Some of them test for zero, which is the
same as long as the length was positive. -/
def skip_guarded : List Byte → Int → Scan (List Byte × Int)
  | [], _ => .outside
  | c :: s, length =>
    if is_whitespace c then
      if length - 1 < 1 then .done (s, length - 1) else skip_guarded s (length - 1)
    else .done (c :: s, length)

/-- The loops over white space that do not look at the length. -/
def skip_unguarded : List Byte → Int → Scan (List Byte × Int)
  | [], _ => .outside
  | c :: s, length =>
    if is_whitespace c then skip_unguarded s (length - 1) else .done (c :: s, length)

/-- The search for the closing quote: what was passed, and where it ended. -/
def string_loop : List Byte → Byte → Int → List Byte → Scan (List Byte × List Byte)
  | passed, _, size, [] => if 1 < size then .outside else .done (passed, [])
  | passed, prev, size, c :: s =>
    if 1 < size then
      if c = quote ∧ prev ≠ backslash then .done (passed, c :: s)
      else string_loop (passed ++ [c]) c (size - 1) s
    else .done (passed, c :: s)

def match_string (s : List Byte) (size : Int) : Scan (List Byte) :=
  if size < 1 then fail
  else do
    let (c, t) ← Call.head s
    if c ≠ quote then fail
    else if size - 1 = 0 then .done t
    else do
      let (passed, nxt) ← string_loop [] c (size - 1) t
      let (d, next) ← Call.head nxt
      if d = quote ∧ validate_string (c :: (passed ++ [d])) true = false then fail else .done next

/-- `strncmp` with a word, as far as it has to read, and the pointer behind. -/
def match_word : List Byte → List Byte → Scan (List Byte)
  | [], s => .done s
  | _ :: _, [] => .outside
  | w :: word, c :: s => if c = w then match_word word s else fail

def match_literal (s : List Byte) (size : Int) : Scan (List Byte) :=
  if size < 1 then fail
  else do
    let (c, _) ← Call.head s
    if c = 110 then match_word (null_word.take size.toNat) s
    else if c = 116 then match_word (true_word.take size.toNat) s
    else if c = 102 then match_word (false_word.take size.toNat) s
    else fail

section

-- the call for what is inside
variable (value : List Byte → Int → Counter → Scan (List Byte × Counter))

/-- The loop of `match_object`, with a bound on its rounds. -/
def object_loop (start : List Byte) (size : Int) : Nat → List Byte → Int → Counter → Scan (List Byte × Counter)
  | 0, _, _, _ => .endless
  | rounds + 1, next, length, counter =>
    if length ≤ 0 then .done (next, counter)
    else do
      let (next, length) ← skip_guarded next length
      if length = 0 then .done (next, counter)
      else do
        let next ← match_string next length
        let length := left start next size
        if length < 1 then .done (next, counter)
        else do
          let (next, length) ← skip_guarded next length
          if length < 1 then .done (next, counter)
          else do
            let (c, next) ← Call.head next
            if c ≠ colon then fail
            else if length - 1 < 1 then .done (next, counter)
            else do
              let (next, counter) ← value next (length - 1) counter
              let length := left start next size
              if length < 1 then .done (next, counter)
              else do
                let (next, length) ← skip_guarded next length
                if length = 0 then .done (next, counter)
                else do
                  let (c, behind) ← Call.head next
                  if c = comma then object_loop start size rounds behind (length - 1) counter
                  else if c = close_object then .done (behind, { counter with objects := counter.objects - 1 })
                  else if c = open_object then
                    if length = 1 then .done (next, counter) else object_loop start size rounds next length counter
                  else if c = open_array then
                    if length = 1 ∧ 0 < counter.objects then .done (next, counter)
                    else object_loop start size rounds next length counter
                  else fail

/-- `match_object`. At the last octet, `next` stays where it is. -/
def match_object (start : List Byte) (size : Int) (counter : Counter) : Scan (List Byte × Counter) :=
  if size < 1 then fail
  else do
    let (c, next) ← Call.head start
    if c ≠ open_object then fail
    else do
      let counter := { counter with objects := counter.objects + 1 }
      if size = 1 then .done (start, counter)
      else do
        let (next, length) ← skip_guarded next (size - 1)
        if length < 1 then .done (next, counter)
        else do
          let (c, behind) ← Call.head next
          if c = close_object then .done (behind, { counter with objects := counter.objects - 1 })
          else object_loop value start size start.length next length counter

/-- The loop of `match_array`, with a bound on its rounds. -/
def array_loop (start : List Byte) (size : Int) : Nat → List Byte → Int → Counter → Scan (List Byte × Counter)
  | 0, _, _, _ => .endless
  | rounds + 1, next, length, counter =>
    if length ≤ 0 then .done (next, counter)
    else do
      let (next, counter) ← value next length counter
      let length := left start next size
      if length < 1 then .done (next, counter)
      else do
        let (next, _) ← skip_unguarded next length
        let length := left start next size
        if length < 1 then .done (next, counter)
        else do
          let (c, behind) ← Call.head next
          if c = comma then array_loop start size rounds behind (length - 1) counter
          else if c = close_array then .done (behind, { counter with arrays := counter.arrays - 1 })
          else if c = open_array then
            if length = 1 then .done (next, counter) else array_loop start size rounds next length counter
          else if c = open_object then
            if length = 1 ∧ 0 < counter.arrays then .done (next, counter)
            else array_loop start size rounds next length counter
          else fail

def match_array (start : List Byte) (size : Int) (counter : Counter) : Scan (List Byte × Counter) :=
  if size < 1 then fail
  else do
    let (c, next) ← Call.head start
    if c ≠ open_array then fail
    else do
      let counter := { counter with arrays := counter.arrays + 1 }
      if size = 1 then .done (start, counter)
      else do
        let (next, length) ← skip_guarded next (size - 1)
        if length < 1 then .done (next, counter)
        else do
          let (c, behind) ← Call.head next
          if c = close_array then .done (behind, { counter with arrays := counter.arrays - 1 })
          else array_loop value start size start.length next length counter

/-- The body of `match_value`. -/
def match_token (ptr : List Byte) (size : Int) (counter : Counter) : Scan (List Byte × Counter) :=
  if size < 1 then fail
  else do
    let (next, length) ← skip_unguarded ptr size
    if length < 1 then .done (next, counter)
    else do
      let (c, _) ← Call.head next
      if c = open_object then match_object value next length counter
      else if c = open_array then match_array value next length counter
      else if c = quote then do
        let next ← match_string next length
        .done (next, counter)
      else if c = 110 ∨ c = 116 ∨ c = 102 then do
        let next ← match_literal next length
        .done (next, counter)
      else if begins_number c then .stop .number
      else fail

end

/-- `match_value`, with a bound on how deep it calls itself. -/
def match_value : Nat → List Byte → Int → Counter → Scan (List Byte × Counter)
  | 0 => fun _ _ _ => .endless
  | depth + 1 => match_token (match_value depth)

/-- What the loop of `ov_json_match` ends with. The last octet of the first value is kept as the
pointer behind it. -/
structure Matched where
  next : List Byte
  length : Int
  counter : Counter
  last : Option (List Byte)

/-- The loop of `ov_json_match`, with a bound on its rounds. -/
def match_loop (start : List Byte) : Nat → List Byte → Int → Counter → Option (List Byte) → Scan Matched
  | 0, _, _, _, _ => .endless
  | rounds + 1, ptr, length, counter, last =>
    if length ≤ 0 then .done ⟨ptr, length, counter, last⟩
    else do
      let (next, counter) ← match_value (start.length + 1) ptr length counter
      let length := left start next start.length
      let last := if last.isNone ∧ next ≠ ptr then some next else last
      if next = ptr then .done ⟨next, length, counter, last⟩
      else do
        let (next, length) ← clear_whitespace next length
        match_loop start rounds next length counter last

/-- `ov_json_match`: what it returns, and the last octet of the first value, again as the pointer
behind it. A scan that is given up returns `false` without one. -/
def json_match (start : List Byte) (incomplete : Bool) : Scan (Bool × Option (List Byte)) :=
  if start.length < 1 then fail
  else do
    let matched ← match_loop start (start.length + 1) start start.length {} none
    if incomplete then .done (true, matched.last)
    else if matched.length ≠ 0 then .done (false, matched.last)
    else if matched.counter.objects ≠ 0 ∨ matched.counter.arrays ≠ 0 then
      .done (false, if matched.last = some matched.next then none else matched.last)
    else .done (true, matched.last)

end openvocs.json.scan
