import Openvocs.Json.Stringify

namespace openvocs.json

variable {ν : Type} (double : Double ν)

/-- `ov_json_write_file`: the content of the file, if there is any to be written. -/
def write_file (value : Value ν) : Option (List Byte) :=
  match parser_calculate double config_stringify_default value with
  | none => none
  | some size =>
    if size < 1 then none
    else
      match parser_encode double config_stringify_default value size with
      | none => none
      | some buffer => if buffer.length = size then some (cstring.of buffer ++ [10]) else none

/-- `ov_json_read_file`: the buffer has room for three more octets than the file, and two of them
are counted. -/
def read_file (content : List Byte) : Option (Value ν) :=
  if content = [] then none
  else
    match parser_decode double (content ++ [0, 0, 0]) (content.length + 2) with
    | none => none
    | some (value, r) => if r < 1 then none else some value

def object_get (value : Value ν) (key : List Byte) : Option (Value ν) :=
  match value with
  | .object members => members.lookup key
  | _ => none

def string_get : Value ν → Option (List Byte)
  | .string content => some content
  | _ => none

/-- `ov_json_number_get`; without a number it returns 0. -/
def number_get : Value ν → Option ν
  | .number value => some value
  | _ => none

end openvocs.json
