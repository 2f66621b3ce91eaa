import MpRpc.Msgpack.Object

/-!
# ErrorInfo — errors and exceptions

`error_info` is a shared pointer that is null when there is no error, so
"no error" and "an error" are the two shapes of one value. Exceptions are
told apart by class, because the `catch` clauses of the library are: only
`mprpc::exception` carries an `error_info`.
-/

namespace MpRpc

/-- `message_data`: the bytes of one message. -/
abbrev MessageData := Bytes

/-- The enumerators of namespace `error_code`. -/
inductive ErrorCode where
  | success
  | unexpectedError
  | unexpectedNullptr
  | parseError
  | invalidMessage
  | eof
  | failedToListen
  | failedToAccept
  | failedToResolve
  | failedToConnect
  | failedToRead
  | failedToWrite
  | methodNotFound
  | invalidFutureUse
  | invalidConfigValue
  | configParseError
  | timeout
deriving DecidableEq, Repr

/-- `error_info::inner_data`. -/
structure ErrorInfo.InnerData where
  code : ErrorCode
  message : String
  data : Option MessageData := none
deriving DecidableEq, Repr

/-- `error_info`; the default is "no error". -/
structure ErrorInfo where
  data : Option ErrorInfo.InnerData := none
deriving DecidableEq, Repr

namespace ErrorInfo

/-- An error with its code and text, and the message it is about if any. -/
def of (code : ErrorCode) (message : String) (data : Option MessageData := none) : ErrorInfo :=
  ⟨some ⟨code, message, data⟩⟩

/-- `has_error` and `operator bool`. -/
def hasError (e : ErrorInfo) : Bool := e.data.isSome

@[simp] theorem hasError_default : (({} : ErrorInfo)).hasError = false := rfl

end ErrorInfo

/-- The exceptions that can leave a function of the library, by class. -/
inductive StdException where
  /-- `mprpc::exception` -/
  | exception (info : ErrorInfo)
  /-- `msgpack::insufficient_bytes` -/
  | insufficientBytes
  /-- `std::out_of_range`, from `unordered_map::at` -/
  | outOfRange
  /-- `std::system_error`, from a socket operation without `error_code` -/
  | systemError
deriving DecidableEq, Repr

/-- What a function throws that allocates memory. -/
inductive Thrown where
  /-- `std::bad_alloc` -/
  | badAlloc
  /-- `mprpc::exception` -/
  | exception (info : ErrorInfo)
deriving DecidableEq, Repr

/-- The bytes of a text of the source. -/
def ascii (s : String) : Bytes := s.toList.map fun c => UInt8.ofNat c.toNat

end MpRpc
