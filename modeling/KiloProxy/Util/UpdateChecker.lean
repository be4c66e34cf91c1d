import KiloProxy.Run.System
import KiloProxy.Text.Kotlin

/-!
# `UpdateChecker.downloadToCache`

The download of an APK into the cache directory, with its two attempts, the resume
offset and the polled cancel and pause flags. What the connection does is an `Answer` for
each attempt, which may depend on the offset that was asked for. Which characters are
letters or digits is a parameter.
-/

namespace KiloProxy.Util.UpdateChecker
set_option autoImplicit false
open KiloProxy.Text KiloProxy.Run

abbrev Bytes := List UInt8

/-- The files of the cache directory by name. -/
abbrev CacheDir := Str → Option Bytes

/-- The message of an exception. -/
abbrev Thrown := Option Str

/-- What `input.read` gives, and the flags polled before it is written. -/
structure Chunk where
  data : Bytes
  cancelled : Bool
  paused : Bool
deriving DecidableEq, Repr

/-- One attempt's connection: the status or an exception, the reading of an error body,
the opening of the two streams, what is read, how the reading ends, and the cancel flag
in the exception handler. -/
structure Answer where
  status : Except Thrown Nat
  errorBody : Except Thrown Unit
  opened : Except Thrown Unit
  chunks : List Chunk
  ending : Except Thrown Unit
  cancelled : Bool

/-- One call. `serve` answers an attempt at an offset. -/
structure Call where
  url : Str
  tag : Str
  totalBytes : Nat
  serve : Nat → Nat → Answer

/-- How an attempt ends. -/
inductive Outcome where
  | returned (result : Option Str)
  | retry
  | threw (message : Thrown)
deriving DecidableEq, Repr

def maxRetries : Nat := 2
def httpOk : Nat := 200
def httpPartial : Nat := 206
def updateApk : Str := "update.apk".toList

section CacheFile

variable (isLetterOrDigit : Char → Bool)

def safeTag (tag : Str) : Str := tag.filter fun c => isLetterOrDigit c || c == '.' || c == '-'

/-- `cacheFile` -/
def cacheFile (tag : Str) : Str :=
  if safeTag isLetterOrDigit tag ≠ [] then "update-".toList ++ (safeTag isLetterOrDigit tag ++ ".apk".toList)
  else updateApk

end CacheFile

namespace CacheDir

def delete (dir : CacheDir) (name : Str) : CacheDir := Function.update dir name none

def write (dir : CacheDir) (name : Str) (content : Bytes) : CacheDir := Function.update dir name (some content)

/-- `File.length()`, which is 0 for a missing file. -/
def length (dir : CacheDir) (name : Str) : Nat := ((dir name).getD []).length

end CacheDir

/-- The filter of `listFiles`, apart from the file itself. -/
def isVersioned (name : Str) : Bool := startsWith name "update-".toList && endsWith name ".apk".toList

/-- Other versions' files and the legacy name are dropped. -/
def wipeOthers (dir : CacheDir) (file : Str) : CacheDir := fun name =>
  if isVersioned name = true ∧ name ≠ file then none
  else if name = updateApk ∧ file ≠ updateApk then none
  else dir name

/-- Where the attempt resumes; `none` when the file is complete. -/
def resumeAt (dir : CacheDir) (file : Str) (totalBytes : Nat) : Option (CacheDir × Nat) :=
  match dir file with
  | none => some (dir, 0)
  | some content =>
    if 0 < totalBytes then
      if content.length = totalBytes then none
      else if 0 < content.length ∧ content.length < totalBytes then some (dir, content.length)
      else some (dir.delete file, 0)
    else some (dir, 0)

/-- The read loop, and what it returns from the function. -/
def receive (dir : CacheDir) (file : Str) : List Chunk → CacheDir × Option Str
  | [] => (dir, none)
  | c :: cs =>
    if c.cancelled then (dir.delete file, some "Cancelled".toList)
    else if c.paused then (dir, some "Paused".toList)
    else receive (dir.write file ((dir file).getD [] ++ c.data)) file cs

/-- The handling of a status that is not served. -/
def refuse (dir : CacheDir) (last : Bool) (a : Answer) (status : Nat) : CacheDir × Outcome :=
  match a.errorBody with
  | .error e => (dir, .threw e)
  | .ok _ =>
    (dir, if last then .returned (some ("Download failed (HTTP ".toList ++ (ofNat status ++ ")".toList))) else .retry)

/-- The streams and the final size check. -/
def stream (dir : CacheDir) (file : Str) (totalBytes : Nat) (last append : Bool) (a : Answer) : CacheDir × Outcome :=
  match a.opened with
  | .error e => (dir, .threw e)
  | .ok _ =>
    -- the output stream truncates unless it appends
    let dir := if append then dir else dir.write file []
    match receive dir file a.chunks with
    | (dir, some result) => (dir, .returned (some result))
    | (dir, none) =>
      match a.ending with
      | .error e => (dir, .threw e)
      | .ok _ =>
        if 0 < totalBytes ∧ dir.length file ≠ totalBytes then
          (dir.delete file,
            if last then .returned (some "Download incomplete, please try again".toList) else .retry)
        else (dir, .returned none)

/-- The attempt past the resume check. -/
def fetch (dir : CacheDir) (file : Str) (totalBytes : Nat) (last : Bool) (offset : Nat) (a : Answer) :
    CacheDir × Outcome :=
  match a.status with
  | .error e => (dir, .threw e)
  | .ok status =>
    if 0 < offset ∧ status = httpPartial then stream dir file totalBytes last true a
    else if 0 < offset then
      -- the range was ignored
      let dir := dir.delete file
      if status ≠ httpOk then refuse dir last a status else stream dir file totalBytes last false a
    else if status ≠ httpOk then refuse dir last a status
    else stream dir file totalBytes last false a

/-- One turn of `repeat`, with its exception handler. -/
def attempt (dir : CacheDir) (file : Str) (totalBytes : Nat) (last : Bool) (serve : Nat → Answer) :
    CacheDir × Outcome :=
  match resumeAt dir file totalBytes with
  | none => (dir, .returned none)
  | some (dir, offset) =>
    let a := serve offset
    match fetch dir file totalBytes last offset a with
    | (dir, .threw e) =>
      if a.cancelled then (dir.delete file, .returned (some "Cancelled".toList)) else (dir, .threw e)
    | r => r

/-- The turns that are left, and the return behind them. -/
def attempts (file : Str) (totalBytes : Nat) (serve : Nat → Nat → Answer) :
    Nat → CacheDir → Thrown → CacheDir × Option Str
  | 0, dir, lastException => (dir, some (lastException.getD "Update failed".toList))
  | n + 1, dir, lastException =>
    match attempt dir file totalBytes (n = 0) (serve (maxRetries - (n + 1))) with
    | (dir, .returned result) => (dir, result)
    | (dir, .retry) => attempts file totalBytes serve n dir lastException
    | (dir, .threw e) => attempts file totalBytes serve n dir e

/-- `url.startsWith("https://")` -/
def Call.https (c : Call) : Bool := startsWith c.url "https://".toList

/-- `downloadToCache` -/
def downloadToCache (isLetterOrDigit : Char → Bool) (dir : CacheDir) (c : Call) : CacheDir × Option Str :=
  if !c.https then (dir, some "Update URL must use HTTPS".toList)
  else
    let file := cacheFile isLetterOrDigit c.tag
    attempts file c.totalBytes c.serve maxRetries (wipeOthers dir file) none

/-! ## Calls one after the other -/

/-- The directory, the tag and the size last requested over HTTPS, and what the last call
returned. -/
structure Cache where
  dir : CacheDir
  tag : Option Str
  totalBytes : Nat
  returned : Option (Option Str)

/-- One call. -/
def Cache.step (isLetterOrDigit : Char → Bool) (s : Cache) (c : Call) : Option Cache :=
  let r := downloadToCache isLetterOrDigit s.dir c
  some (if c.https then ⟨r.1, some c.tag, c.totalBytes, some r.2⟩ else { s with dir := r.1, returned := some r.2 })

end KiloProxy.Util.UpdateChecker
