import Openvocs.Http.Head

/-!
A write beyond the buffer is `none`.
-/

namespace openvocs.http

open cstring (Str)

/-- `ov_http_message_config`, as far as the builders use it. -/
structure MessageConfig where
  default_size : Nat := 0
  max_bytes_method_name : Nat := 0
  max_bytes_line : Nat := 0
deriving DecidableEq

def config_init (config : MessageConfig) : MessageConfig where
  default_size := if config.default_size = 0 then 4096 else config.default_size
  max_bytes_method_name := if config.max_bytes_method_name = 0 then 7 else config.max_bytes_method_name
  max_bytes_line := if config.max_bytes_line = 0 then 1000 else config.max_bytes_line

/-- `ov_http_message`: all of its buffer, and how much of it is used. -/
structure Message where
  config : MessageConfig
  start : List Byte
  length : Nat
deriving DecidableEq

/-- `ov_memory_pointer`: what lies from its start on. -/
structure Piece where
  start : List Byte
  length : Nat
  within : length ≤ start.length

def Piece.octets (piece : Piece) : List Byte := piece.start.take piece.length

/-- What `%.*s` writes of it. The length is converted to `int`, a negative one is no bound, and
the text ends in front of a NUL. -/
def Piece.print (piece : Piece) : List Byte :=
  let precision := (BitVec.ofNat 32 piece.length).toInt
  cstring.of (if precision < 0 then piece.start else piece.start.take precision.toNat)

namespace Message

def capacity (msg : Message) : Nat := msg.start.length

def content (msg : Message) : List Byte := msg.start.take msg.length

end Message

/-- A conversion from `size_t` to `ssize_t`. -/
def ssize (n : Nat) : Int := (BitVec.ofNat 64 n).toInt

/-- What `snprintf` returns; longer texts than an `int` can count are an error. -/
def printed (text : List Byte) : Option Nat := if text.length < 2 ^ 31 then some text.length else none

/-- What `snprintf` writes into some room. -/
def print_octets (room : Nat) (text : List Byte) : List Byte :=
  if room = 0 then [] else text.take (room - 1) ++ [0]

/-- A write behind the used part of the buffer. -/
def Message.write (msg : Message) (octets : List Byte) : Option Message :=
  if msg.length + octets.length ≤ msg.capacity then
    some { msg with start := bytes.overwrite msg.start msg.length octets }
  else none

/-- `ov_http_message_create`. A message or a buffer from a cache has some capacity already. -/
def message_create (cached : Nat) (config : MessageConfig) : Message where
  config := config_init config
  start := List.replicate (max cached (config_init config).default_size) 0
  length := 0

/-- What the functions that create a message do behind their checks. -/
def create_line (msg : Message) (text : List Byte) : Option Message :=
  match printed text with
  | none => none
  | some bytes =>
    if bytes = ssize msg.capacity then none
    else (msg.write (print_octets msg.capacity text)).map fun msg => { msg with length := bytes }

/-- The format `"HTTP/%i.%i"`. -/
def print_version (version : Version) : List Byte :=
  http_slash ++ (cstring.decimal version.major.toNat ++ 46 :: cstring.decimal version.minor.toNat)

/-- The format of a status line. -/
def print_status (version : Version) (code : Nat) (phrase : List Byte) : List Byte :=
  print_version version ++ space :: (cstring.decimal code ++ space :: (phrase ++ crlf))

/-- The format of a request line. -/
def print_request (version : Version) (method uri : List Byte) : List Byte :=
  method ++ space :: (uri ++ space :: (print_version version ++ crlf))

variable (cached : Nat) (config : MessageConfig) (version : Version)

def create_status (code : Nat) (phrase : Piece) : Option Message :=
  let msg := message_create cached config
  if phrase.length = 0 then none
  else if code < 100 ∨ 999 < code then none
  else create_line msg (print_status version code phrase.print)

def create_status_string (code : Nat) (phrase : Str) : Option Message :=
  let msg := message_create cached config
  if code < 100 ∨ 999 < code then none
  else create_line msg (print_status version code phrase.1)

def create_request (method uri : Piece) : Option Message :=
  let msg := message_create cached config
  if method.length = 0 then none
  else if uri.length = 0 then none
  else if msg.config.max_bytes_method_name < method.length then none
  else if path_max < uri.length then none
  else create_line msg (print_request version method.print uri.print)

def create_request_string (method uri : Str) : Option Message :=
  let msg := message_create cached config
  if msg.config.max_bytes_method_name < method.1.length then none
  else if path_max < uri.1.length then none
  else create_line msg (print_request version method.1 uri.1)

namespace Message

-- whether memory of some size can be had
variable (realloc : Nat → Bool) (msg : Message)

def buffer_extend (size : Nat) : Option Message :=
  if size = 0 then none
  else if realloc (msg.capacity + size) then
    some { msg with start := msg.start.take msg.length ++ List.replicate (msg.capacity + size - msg.length) 0 }
  else none

def ensure_open_capacity (capacity : Nat) : Option Message :=
  if capacity = 0 then none
  else
    let unused := minus msg.capacity msg.length
    if capacity ≤ unused then some msg else msg.buffer_extend realloc (capacity - unused)

/-- The loop that prints a text behind the used part, with a bound on its rounds: the buffer grows
until the text and a NUL fit. A text that is longer than the limit is not added. -/
def print_loop (exceeds : Nat → Bool) (text : List Byte) : Nat → Message → Option (Bool × Message)
  | 0, _ => none
  | rounds + 1, msg =>
    let unused := minus msg.capacity msg.length
    match msg.write (print_octets unused text) with
    | none => none
    | some msg =>
      match printed text with
      | none => some (false, msg)
      | some bytes =>
        if exceeds bytes then (msg.write (List.replicate unused 0)).map fun msg => (false, msg)
        else if bytes < unused then some (true, { msg with length := msg.length + bytes })
        else
          match msg.ensure_open_capacity realloc (unused + msg.config.default_size) with
          | none => some (false, msg)
          | some msg => print_loop exceeds text rounds msg

/-- The limit for a header line. -/
def exceeds_line (bytes : Nat) : Bool := ssize msg.config.max_bytes_line < bytes

-- what lies behind the buffer, and the C library for the addresses in a URI
variable (behind : Memory) (inet_pton : uri.Family → List Byte → Bool)

/-- The memory from the start of the buffer on. -/
def memory : Memory := fun p => msg.start.getD p (behind p)

/-- The message has a valid start line. -/
def has_start_line : Bool :=
  match parse_status_line (msg.memory behind) 0 msg.length with
  | .success _ => true
  | _ =>
    match parse_request_line inet_pton (msg.memory behind) msg.config.max_bytes_method_name 0 msg.length with
    | .success _ => true
    | _ => false

/-- The format of a header line. -/
def print_header (name value : List Byte) : List Byte := name ++ 58 :: (value ++ crlf)

/-- What `ov_http_message_add_header` and `ov_http_message_add_header_string` do with the line. -/
def add_line (text : List Byte) : Option (Bool × Message) :=
  if !msg.has_start_line behind inet_pton then some (false, msg)
  else msg.print_loop realloc msg.exceeds_line text (text.length + 2)

def add_header (name value : Piece) : Option (Bool × Message) :=
  if name.length = 0 ∨ value.length = 0 then some (false, msg)
  else msg.add_line realloc behind inet_pton (print_header name.print value.print)

def add_header_string (key val : Str) : Option (Bool × Message) :=
  msg.add_line realloc behind inet_pton (print_header key.1 val.1)

/-- The end of `ov_http_message_close_header`, with the room that `snprintf` is told. -/
def close_line (unused : Nat) : Option (Bool × Message) :=
  (msg.write (print_octets unused crlf)).map fun msg => (true, { msg with length := msg.length + 2 })

/-- `ov_http_message_close_header`. The room is not computed anew after the buffer has grown. -/
def close_header : Option (Bool × Message) :=
  let unused := minus msg.capacity msg.length
  if unused < 3 then
    match msg.ensure_open_capacity realloc (unused + msg.config.default_size) with
    | none => some (false, msg)
    | some msg => msg.close_line (unused + msg.config.default_size)
  else msg.close_line unused

/-- The used part ends in an empty line. -/
def ends_closed : Bool := 5 ≤ msg.length && bytes.slice msg.start (msg.length - 4) 4 = crlf ++ crlf

def add_body (body : Piece) : Option (Bool × Message) :=
  if body.length = 0 then some (false, msg)
  else if !msg.ends_closed then some (false, msg)
  else
    match msg.ensure_open_capacity realloc body.length with
    | none => some (false, msg)
    | some msg => (msg.write body.octets).map fun msg => (true, { msg with length := msg.length + body.length })

def add_body_string (body : Str) : Option (Bool × Message) :=
  if body.1.length = 0 then some (false, msg)
  else if !msg.ends_closed then some (false, msg)
  else msg.print_loop realloc (fun _ => false) body.1 (body.1.length + 2)

end Message

end openvocs.http
