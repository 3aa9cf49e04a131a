import RustClash.Net.Io

/-!
# Errors of the proxy stack

`ProxyError`, without the `std::io::Error` it may carry along, which nothing
here reads back, and the two ways its layers make a `std::io::Error`.
-/

namespace RustClash

inductive ProxyErrorCode where
  | authRequired
  | authFailed
  | connectionFailed
  | invalidResponse
  | timeout
  | stringTooLong
  | transportUpgradeFailed
deriving DecidableEq, Repr

structure ProxyError where
  code : ProxyErrorCode
  message : String
deriving DecidableEq, Repr

/-- `std::io::Error::other`. -/
def IoError.other (message : String) : IoError := ⟨.other, message⟩

/-- `std::io::Error::other(e.to_string())`. -/
def ProxyError.toIo (e : ProxyError) : IoError := .other e.message

end RustClash
