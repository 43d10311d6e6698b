/-
**Faults**: everything that an operation can fail with.

The first group are the library's own findings, each with structured data for reports. The others come
from texts that cannot be read, from values that are not what an operation needs, from files, and from
the remote services.

Main definitions:

* `Disruption` — how a request can fail before there is a response,
* `FileFault` — how a file operation can fail,
* `Fault`, with `Fault.name`, `Fault.message` and `Fault.data?`.
-/

import SophiaBind.Json
import SophiaBind.Number.Integer
import SophiaBind.Text.Quoted
import SophiaBind.Text.Utf8
import SophiaBind.Bytes.Base58
import SophiaBind.Bytes.Base64

namespace SophiaBind

/-! ### Requests -/

/-- How a request can fail before there is a response. Some are families of others. -/
inductive Disruption where
  | connectTimeout
  | readTimeout
  | writeTimeout
  | poolTimeout
  | timeout
  | connect
  | read
  | write
  | close
  | network
  | localProtocol
  | remoteProtocol
  | protocol
  | proxy
  | unsupportedProtocol
  | transport
  | decoding
  | redirects
  | request
  deriving DecidableEq, Repr

namespace Disruption

/-- The name under which a disruption is reported. -/
def name : Disruption → String
  | .connectTimeout => "ConnectTimeout"
  | .readTimeout => "ReadTimeout"
  | .writeTimeout => "WriteTimeout"
  | .poolTimeout => "PoolTimeout"
  | .timeout => "TimeoutException"
  | .connect => "ConnectError"
  | .read => "ReadError"
  | .write => "WriteError"
  | .close => "CloseError"
  | .network => "NetworkError"
  | .localProtocol => "LocalProtocolError"
  | .remoteProtocol => "RemoteProtocolError"
  | .protocol => "ProtocolError"
  | .proxy => "ProxyError"
  | .unsupportedProtocol => "UnsupportedProtocol"
  | .transport => "TransportError"
  | .decoding => "DecodingError"
  | .redirects => "TooManyRedirects"
  | .request => "RequestError"

/-- All disruptions. -/
def all : List Disruption :=
  [.connectTimeout, .readTimeout, .writeTimeout, .poolTimeout, .timeout, .connect, .read, .write, .close,
   .network, .localProtocol, .remoteProtocol, .protocol, .proxy, .unsupportedProtocol, .transport,
   .decoding, .redirects, .request]

/-- The disruption of a name. -/
def ofName? (s : String) : Option Disruption :=
  all.find? fun d => d.name == s

/-- The next larger family. -/
def family? : Disruption → Option Disruption
  | .connectTimeout | .readTimeout | .writeTimeout | .poolTimeout => some .timeout
  | .connect | .read | .write | .close => some .network
  | .localProtocol | .remoteProtocol => some .protocol
  | .timeout | .network | .protocol | .proxy | .unsupportedProtocol => some .transport
  | .transport | .decoding | .redirects => some .request
  | .request => none

/-- Whether a disruption is `other` or in its family, going up at most three families. -/
def within (d other : Disruption) : Bool :=
  d == other || match d.family? with
    | none => false
    | some e => e == other || match e.family? with
      | none => false
      | some f => f == other || f.family? == some other

/-- A request that took too long. -/
def isTimeout (d : Disruption) : Bool := d.within .timeout

/-- A request that may not have reached the service, so that it can be sent again. -/
def isTransport (d : Disruption) : Bool := d.within .transport

end Disruption

/-! ### Files -/

/-- Why a file operation failed. -/
inductive FileCause where
  | absent
  | present
  | notDirectory
  | isDirectory
  | nameTooLong
  | busy
  | refused
  | tooManyLinks
  deriving DecidableEq, Repr

/-- The system's number for a cause. -/
def FileCause.number : FileCause → Nat
  | .absent => 2
  | .present => 17
  | .notDirectory => 20
  | .isDirectory => 21
  | .nameTooLong => 36
  | .busy => 16
  | .refused => 13
  | .tooManyLinks => 40

/-- The system's wording of a cause. -/
def FileCause.wording : FileCause → String
  | .absent => "No such file or directory"
  | .present => "File exists"
  | .notDirectory => "Not a directory"
  | .isDirectory => "Is a directory"
  | .nameTooLong => "File name too long"
  | .busy => "Device or resource busy"
  | .refused => "Permission denied"
  | .tooManyLinks => "Too many levels of symbolic links"

/-- The name under which a cause is reported. -/
def FileCause.name : FileCause → String
  | .absent => "FileNotFoundError"
  | .present => "FileExistsError"
  | .notDirectory => "NotADirectoryError"
  | .isDirectory => "IsADirectoryError"
  | .nameTooLong | .busy | .tooManyLinks => "OSError"
  | .refused => "PermissionError"

/-- A failed file operation on a path, or from a path to another. -/
structure FileFault where
  cause : FileCause
  path : String
  target : Option String := none
  deriving DecidableEq, Repr

/-- The system's number and wording, and the paths. -/
def FileFault.message (f : FileFault) : String :=
  "[Errno " ++ toString f.cause.number ++ "] " ++ f.cause.wording ++ ": " ++ Text.quoted f.path ++
    match f.target with
    | none => ""
    | some t => " -> " ++ Text.quoted t

/-! ### Faults -/

/-- What an operation failed with. -/
inductive Fault where
  /-- Key material from which no identity follows. -/
  | invalidKeypair (reason : String)
  /-- A network name that stands for no end points. -/
  | invalidNetwork (network reason : String)
  /-- A type description that is not well formed. -/
  | malformedType (text : String) (position : Nat) (reason : String)
  /-- A function that is not in the catalog. -/
  | unknownFunction (name : String) (available : List String)
  /-- A function asked for by its position; a catalog knows names only. -/
  | unknownItem (position : Nat) (available : List String)
  /-- An error response of the node or the compiler, or none at all. -/
  | api (url reason : String) (status : Option Int)
  /-- A source that the compiler rejects. -/
  | rejectedSource (contract reason : String)
  /-- A call that was mined but did not succeed. -/
  | failedCall (function returnType reason : String)
  /-- Any other finding of the library. -/
  | finding (message : String) (data : List (LooseText × Json))
  /-- A text without the mark that names its encoding. -/
  | notPrefixed (value : LooseText)
  /-- An encoded value whose checksum does not fit; `tag` is its mark. -/
  | wrongChecksum (tag : String)
  /-- A base 58 value whose checksum does not fit. -/
  | wrongChecksum58
  /-- A text that is not in base 58. -/
  | notBase58 (text : List CodePoint) (why : Base58.Refusal)
  | notBase64 (why : Base64.Refusal)
  /-- A text that is not hexadecimal, with the position of the character at fault. -/
  | notHex (position : Nat)
  /-- A seed that has not 32 bytes. -/
  | wrongSeed
  /-- An included file that cannot be read, as written and as looked for. -/
  | missingInclude (written resolved : String)
  /-- A path on which a symbolic link leads back to itself. -/
  | linkLoop (path : String)
  /-- A name that is no function of a table. -/
  | noFunction (table name : String)
  /-- A name that is neither an attribute nor a function of a deployed contract. -/
  | noMember (name : String)
  /-- A request without a response. -/
  | disrupted (kind : Disruption) (message : String)
  /-- A failure that a client reports under a name of its own. -/
  | reported (name message : String)
  | file (fault : FileFault)
  /-- A path that cannot be used as the operation needs it. -/
  | badPath (message : String)
  | notUtf8 (why : Utf8.Malformed)
  /-- A text with halves of surrogate pairs, which have no bytes. -/
  | notEncodable (text : BrokenText)
  /-- A text, as written in messages, that is no whole number. -/
  | notInteger (written : String)
  /-- A text of more digits than a whole number may have. -/
  | tooManyDigits (count : Nat)
  /-- A whole number of more digits than a text may have. -/
  | tooLongNumber
  /-- A value of a kind that is no number. -/
  | notNumber (kind : String)
  /-- A number that is not one, where an integer is needed. -/
  | nanInteger
  /-- An infinity where an integer is needed. -/
  | infiniteInteger
  /-- A negative number where bytes are needed. -/
  | negativeBytes
  /-- A number too large for the bytes that are to hold it. -/
  | tooManyBytes
  /-- A whole number too large for floating point. -/
  | tooLargeInteger
  | notIterable (kind : String)
  | notSubscriptable (kind : String)
  /-- Something in a sequence looked up by a name. -/
  | namedIndex (kind : String)
  | noAttribute (kind name : String)
  /-- A value of a kind that is no key. -/
  | notKey (kind : String)
  | missingKey (name : String)
  /-- Values of two kinds that have no order. -/
  | incomparable (left right : String)
  /-- A binding called with arguments that it does not take, or a value used as it cannot be. -/
  | misused (message : String)
  /-- A number of seconds out of the range of the clock. -/
  | outOfCalendar
  /-- A number of seconds in a year out of the range of the calendar. -/
  | beyondYears
  /-- A year within the calendar that is too large to be written. -/
  | tooLateYear
  /-- An operation that would go on without end. -/
  | endless
  /-- A moment that is not a number. -/
  | nanMoment
  /-- The end of the program with an exit code. -/
  | exit (code : Int)

namespace Fault

/-- The name under which a fault is reported. -/
def name : Fault → String
  | .invalidKeypair _ => "InvalidKeypairError"
  | .invalidNetwork _ _ => "NetworkConfigError"
  | .malformedType _ _ _ => "TypeParseError"
  | .unknownFunction _ _ | .unknownItem _ _ => "UnknownFunctionError"
  | .api _ _ _ => "ApiError"
  | .rejectedSource _ _ => "CompileError"
  | .failedCall _ _ _ => "ContractCallError"
  | .finding _ _ => "ForgaeError"
  | .notPrefixed _ | .wrongChecksum _ | .wrongChecksum58 | .notHex _ | .wrongSeed => "ValueError"
  | .notBase58 _ (.nonAscii _ _) | .notEncodable _ => "UnicodeEncodeError"
  | .notBase58 _ (.notDigit _) => "ValueError"
  | .notBase64 .nonAscii => "ValueError"
  | .notBase64 _ => "Base64Error"
  | .missingInclude _ _ => "FileNotFoundError"
  | .linkLoop _ => "RuntimeError"
  | .noFunction _ _ | .noMember _ | .noAttribute _ _ => "AttributeError"
  | .disrupted kind _ => kind.name
  | .reported name _ => name
  | .file f => f.cause.name
  | .badPath _ | .notInteger _ | .tooManyDigits _ | .tooLongNumber | .nanInteger | .nanMoment => "ValueError"
  | .beyondYears => "OSError"
  | .notUtf8 _ => "UnicodeDecodeError"
  | .infiniteInteger | .negativeBytes | .tooManyBytes | .tooLargeInteger | .outOfCalendar | .tooLateYear =>
    "OverflowError"
  | .endless => "RecursionError"
  | .notNumber _ | .notIterable _ | .notSubscriptable _ | .namedIndex _ | .notKey _ | .incomparable _ _
  | .misused _ => "TypeError"
  | .missingKey _ => "KeyError"
  | .exit _ => "SystemExit"

/-- The wording of `count` code points of a text for which an encoding has no bytes. -/
def unencodableMessage (encoding : String) (text : List CodePoint) (position count : Nat) (reason : String) : String :=
  let place :=
    if count = 1 then
      let code := ((text[position]?).map CodePoint.toNat).getD 0
      "character '" ++ String.ofList (Text.codeEscape code) ++ "' in position " ++ toString position
    else "characters in position " ++ toString position ++ "-" ++ toString (position + count - 1)
  "'" ++ encoding ++ "' codec can't encode " ++ place ++ ": " ++ reason

/-- The wording of a text that is not in base 58. -/
def base58Message (text : List CodePoint) : Base58.Refusal → String
  | .nonAscii position count => unencodableMessage "ascii" text position count "ordinal not in range(128)"
  | .notDigit c => "Invalid character " ++ Text.quoted (String.singleton c)

/-- The wording of a text that is not in base 64. -/
def base64Message : Base64.Refusal → String
  | .nonAscii => "string argument should contain only ASCII characters"
  | .loneCharacter count =>
    "Invalid base64-encoded string: number of data characters (" ++ toString count ++
      ") cannot be 1 more than a multiple of 4"
  | .padding => "Incorrect padding"

/-- The wording of a text with halves of surrogate pairs: the first of them, with those that follow it at once. -/
def halvesMessage (t : BrokenText) : String :=
  let count := 1 + (t.rest.takeWhile fun p => p matches .half _).length
  unencodableMessage "utf-8" t.points t.front.length count "surrogates not allowed"

/-- The wording of a name looked up in a sequence. -/
def namedIndexMessage (kind : String) : String :=
  if kind = "str" then "string indices must be integers, not 'str'"
  else kind ++ " indices must be integers or slices, not str"

/-- The text of a fault. -/
def message : Fault → String
  | .invalidKeypair reason => "Incorrect keypair or secret key passed: " ++ reason
  | .invalidNetwork network reason => "Invalid network '" ++ network ++ "': " ++ reason
  | .malformedType text position reason =>
    "Cannot parse type " ++ Text.quoted text ++ " at position " ++ toString position ++ ": " ++ reason
  | .unknownFunction name _ => "Contract has no function '" ++ name ++ "'"
  | .unknownItem position _ => "Contract has no function '" ++ toString position ++ "'"
  | .api _ reason _ => "API ERROR: " ++ reason
  | .rejectedSource contract reason => "Failed to compile " ++ contract ++ ": " ++ reason
  | .failedCall function returnType reason =>
    "Call to '" ++ function ++ "' ended with " ++ returnType ++ ": " ++ reason
  | .finding message _ => message
  | .notPrefixed value => "Not a prefixed encoded value: " ++ value.quoted
  | .wrongChecksum tag => "Invalid checksum for " ++ tag ++ "_ value"
  | .wrongChecksum58 => "Invalid checksum"
  | .notBase58 text why => base58Message text why
  | .notBase64 why => base64Message why
  | .notHex position => "non-hexadecimal number found in fromhex() arg at position " ++ toString position
  | .wrongSeed => "An Ed25519 private key is 32 bytes long"
  | .missingInclude written resolved => "Included file " ++ written ++ " not found at " ++ resolved
  | .linkLoop path => "Symlink loop from " ++ Text.quoted path
  | .noFunction table name => table ++ " has no function '" ++ name ++ "'"
  | .noMember name => "Contract has no attribute or function '" ++ name ++ "'"
  | .disrupted _ message => message
  | .reported _ message => message
  | .file f => f.message
  | .badPath message => message
  | .notUtf8 why => why.message
  | .notEncodable text => halvesMessage text
  | .notInteger written => "invalid literal for int() with base 10: " ++ written
  | .tooManyDigits count => Integer.limitMessage count
  | .tooLongNumber => Integer.textLimitMessage
  | .notNumber kind =>
    "int() argument must be a string, a bytes-like object or a real number, not '" ++ kind ++ "'"
  | .nanInteger => "cannot convert float NaN to integer"
  | .infiniteInteger => "cannot convert float infinity to integer"
  | .negativeBytes => "can't convert negative int to unsigned"
  | .tooManyBytes => "int too big to convert"
  | .tooLargeInteger => "int too large to convert to float"
  | .notIterable kind => "'" ++ kind ++ "' object is not iterable"
  | .notSubscriptable kind => "'" ++ kind ++ "' object is not subscriptable"
  | .namedIndex kind => namedIndexMessage kind
  | .noAttribute kind name => "'" ++ kind ++ "' object has no attribute '" ++ name ++ "'"
  | .notKey kind => "unhashable type: '" ++ kind ++ "'"
  | .missingKey name => Text.quoted name
  | .incomparable left right =>
    "'<' not supported between instances of '" ++ left ++ "' and '" ++ right ++ "'"
  | .misused message => message
  | .outOfCalendar => "timestamp out of range for platform time_t"
  | .beyondYears => "[Errno 75] Value too large for defined data type"
  | .tooLateYear => "signed integer is greater than maximum"
  | .endless => "maximum recursion depth exceeded"
  | .nanMoment => "Invalid value NaN (not a number)"
  | .exit code => toString code

/-- The structured data of the library's own findings. -/
def data? : Fault → Option (List (LooseText × Json))
  | .invalidKeypair reason => some [("reason", .text reason)]
  | .invalidNetwork network reason => some [("network", .text network), ("reason", .text reason)]
  | .malformedType text position reason =>
    some [("text", .text text), ("position", .int position), ("reason", .text reason)]
  | .unknownFunction name available =>
    some [("function", .text name), ("available", .array (available.map .text))]
  | .unknownItem position available =>
    some [("function", .int position), ("available", .array (available.map .text))]
  | .api url reason status =>
    some [("url", .text url), ("status", match status with | none => .null | some s => .int s),
      ("reason", .text reason)]
  | .rejectedSource contract reason => some [("contract", .text contract), ("reason", .text reason)]
  | .failedCall function returnType reason =>
    some [("function", .text function), ("return_type", .text returnType), ("reason", .text reason)]
  | .finding _ data => some data
  | _ => none

/-- Whether a fault is one of the library's own findings. -/
def isFinding (f : Fault) : Bool :=
  f.data?.isSome

/-- Whether a fault says that a file is missing. -/
def isAbsence : Fault → Bool
  | .missingInclude _ _ => true
  | .file f => f.cause == .absent
  | _ => false

/-- Whether a fault says that a file could not be written, or a text not be encoded for it. -/
def isWriteFailure : Fault → Bool
  | .file _ | .notEncodable _ => true
  | _ => false

/-- A fault's text, or its name if the text is empty. -/
def summary (f : Fault) : String :=
  if f.message = "" then f.name else f.message

end Fault

end SophiaBind
