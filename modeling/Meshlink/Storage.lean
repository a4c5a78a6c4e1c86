import Meshlink.Commands
import Meshlink.FileTree
import Meshlink.Packmsg

/-!
The storage code: conf.c, and the parts of meshlink.c that rotate the storage
key and open a configuration. The configuration base is a tree of files. Every
call of the file system or of stdio may fail, and the process may be killed
after any of them. What is written to a stream stays in its buffer until it is
flushed or closed, and a stream follows its file when that is renamed.
-/
namespace Meshlink.Storage

open Commands FileTree
open Packmsg (configVersion getUint32)

abbrev Bytes := List UInt8

abbrev Path := List String

abbrev Tree := Node String Bytes

abbrev Entries := List (String × Tree)

inductive Call
  | access
  | stat
  | opendir
  | readdir
  | mkdir
  | rmdir
  | unlink
  | rename
  | openPath
  | fsync
  | close
  | fopen
  | fseek
  | fread
  | fwrite
  | fflush
  | fclose
  | utime
  deriving DecidableEq

/-- A call and the path that it is about, below the configuration base. -/
structure Op where
  call : Call
  path : Path
  deriving DecidableEq

/-- The storage code only tells a missing file from other errors. -/
inductive Errno
  | noent
  | other
  deriving DecidableEq

/-- ChaCha-Poly1305 with a 96 bit nonce, called with the key, the nonce and the data. -/
structure Cipher where
  encrypt : Bytes → Bytes → Bytes → Bytes
  decrypt : Bytes → Bytes → Bytes → Option Bytes
  encrypt_length : ∀ key nonce plain, (encrypt key nonce plain).length = plain.length + 16
  decrypt_encrypt : ∀ key nonce plain, decrypt key nonce (encrypt key nonce plain) = some plain

/-- What the main configuration and the own host file have to contain. -/
structure Format where
  mainName : Bytes → Option String
  hostOk : String → Bytes → Bool

/-- Which calls fail, for which entries readdir leaves the type unknown, after which call
the process is killed, how much of its buffer a failing flush still writes, and the random
nonces. -/
structure Env where
  fails : ℕ → Op → Bool
  untyped : ℕ → Path → Bool
  kills : ℕ → Op → Bool
  written : ℕ → ℕ
  nonce : ℕ → Vector UInt8 12

/-- A call that failed although it could have succeeded. A readdir that fails leaves
entries unread, and so does one that does not know the type of an entry. -/
structure Failure where
  op : Op
  unread : Entries

/-- The state of the process and the disk. Failures are recorded, and so are the renames
that were done and the files that were closed after writing. -/
structure World where
  disk : Tree
  stream : Option (Path × Bytes)
  configKey : Option Bytes
  ops : ℕ
  failures : List Failure
  renamed : List Path
  closed : List Path

variable {α : Type}

section Calls

variable (e : Env) (disk : Tree) (path : Path)

/-- The outcome of a call that is not killed. -/
def outcome (op : Op) (unread : Entries) (effect : World → Except Errno (α × World))
    (lost : World → World) (w : World) : Except Errno α × World :=
  match effect w with
  | .error errno => (.error errno, {w with ops := w.ops + 1})
  | .ok (a, w') =>
    if e.fails w.ops op then
      (.error .other, {lost w with ops := w.ops + 1, failures := w.failures ++ [⟨op, unread⟩]})
    else (.ok a, {w' with ops := w.ops + 1})

def syscall (op : Op) (unread : Entries) (effect : World → Except Errno (α × World))
    (lost : World → World) : Command World (Except Errno α) := fun w =>
  let result := outcome e op unread effect lost w
  if e.kills w.ops op then (none, result.2) else (some result.1, result.2)

/-- A call that leaves the disk alone. -/
def inspect (call : Call) (path : Path) (value : Tree → Except Errno α) :
    Command World (Except Errno α) :=
  syscall e ⟨call, path⟩ [] (fun w => (value w.disk).map fun a => (a, w)) id

/-- A call that changes the disk. -/
def change (call : Call) (path : Path) (value : Tree → Except Errno Tree) :
    Command World (Except Errno Unit) :=
  syscall e ⟨call, path⟩ [] (fun w => (value w.disk).map fun disk => ((), {w with disk := disk})) id

def succeeds (x : Command World (Except Errno α)) : Command World Bool := do
  let result ← x
  pure result.isOk

def lookup : Except Errno Tree :=
  match get disk path with
  | none => .error .noent
  | some node => .ok node

/-- There is a directory that the last name of the path can be an entry of. -/
def hasParent : Bool :=
  match get disk path.dropLast with
  | some (.dir _) => !path.isEmpty
  | _ => false

def access : Command World (Except Errno Unit) :=
  inspect e .access path fun disk => (lookup disk path).map fun _ => ()

def stat : Command World (Except Errno Unit) :=
  inspect e .stat path fun disk => (lookup disk path).map fun _ => ()

def listing : Except Errno Entries :=
  match get disk path with
  | none => .error .noent
  | some (.file _) => .error .other
  | some (.dir entries) => .ok entries

def opendir : Command World (Except Errno Entries) := inspect e .opendir path (listing · path)

/-- At the end of a directory readdir returns NULL, as it does when it fails. -/
def readdir (unread : Entries) : Command World (Except Errno Unit) :=
  syscall e ⟨.readdir, path⟩ unread
    (fun w => if unread.isEmpty then .error .other else .ok ((), w)) id

def withDir : Except Errno Tree :=
  if (get disk path).isSome then .error .other
  else if hasParent disk path then .ok (put disk path (some (.dir [])))
  else .error .noent

def mkdir : Command World (Except Errno Unit) := change e .mkdir path (withDir · path)

/-- Only an empty directory can be removed. -/
def withoutDir : Except Errno Tree :=
  match get disk path with
  | none => .error .noent
  | some (.dir []) => .ok (put disk path none)
  | some _ => .error .other

def rmdir : Command World (Except Errno Unit) := change e .rmdir path (withoutDir · path)

def withoutFile : Except Errno Tree :=
  match get disk path with
  | none => .error .noent
  | some (.file _) => .ok (put disk path none)
  | some (.dir _) => .error .other

def unlink : Command World (Except Errno Unit) := change e .unlink path (withoutFile · path)

/-- A file may replace a file, and a directory an empty one. -/
def mayReplace : Tree → Option Tree → Bool
  | _, none => true
  | .file _, some (.file _) => true
  | .dir _, some (.dir []) => true
  | _, _ => false

/-- An open stream follows its file. -/
def follow (source target : Path) (stream : Option (Path × Bytes)) : Option (Path × Bytes) :=
  stream.map fun (path, buffer) =>
    if source.isPrefixOf path then (target ++ path.drop source.length, buffer) else (path, buffer)

def rename (source target : Path) : Command World (Except Errno Unit) :=
  syscall e ⟨.rename, source⟩ [] (fun w =>
    match get w.disk source with
    | none => .error .noent
    | some node =>
      if mayReplace node (get w.disk target) && hasParent w.disk target then
        .ok ((), {w with
          disk := put (put w.disk source none) target (some node)
          stream := follow source target w.stream
          renamed := w.renamed ++ [source]})
      else .error .other) id

/-- Open a file for reading. -/
def fopenRead : Command World (Except Errno Unit) :=
  inspect e .fopen path fun disk =>
    match get disk path with
    | none => .error .noent
    | some (.file _) => .ok ()
    | some (.dir _) => .error .other

def fseek : Command World (Except Errno Unit) := inspect e .fseek path fun _ => .ok ()

def fread : Command World (Except Errno Bytes) :=
  inspect e .fread path fun disk =>
    match fileAt disk path with
    | none => .error .other
    | some data => .ok data

/-- Close a stream that was open for reading. -/
def fcloseRead : Command World (Except Errno Unit) := inspect e .fclose path fun _ => .ok ()

/-- Open a file for writing: it is created, or emptied if it exists. -/
def fopenWrite : Command World (Except Errno Unit) :=
  syscall e ⟨.fopen, path⟩ [] (fun w =>
    match get w.disk path with
    | some (.dir _) => .error .other
    | _ =>
      if hasParent w.disk path then
        .ok ((), {w with disk := put w.disk path (some (.file [])), stream := some (path, [])})
      else .error .noent) id

/-- fwrite of one element returns one only if the element is not empty. -/
def fwrite (data : Bytes) : Command World (Except Errno Unit) :=
  syscall e ⟨.fwrite, path⟩ [] (fun w =>
    if data.isEmpty then .error .other
    else .ok ((), {w with stream := w.stream.map fun (path, buffer) => (path, buffer ++ data)})) id

/-- Data that reaches a file is added to what is in it. -/
def appendTo (data : Bytes) : Tree :=
  match get disk path with
  | some (.file old) => put disk path (some (.file (old ++ data)))
  | _ => disk

/-- The buffer of the stream is written, all of it or its first `n` bytes. -/
def flush (n : Option ℕ) (w : World) : World :=
  match w.stream with
  | none => w
  | some (path, buffer) =>
    {w with
      disk := appendTo w.disk path (buffer.take (n.getD buffer.length))
      stream := some (path, [])}

def fflush : Command World (Except Errno Unit) :=
  syscall e ⟨.fflush, path⟩ [] (fun w => .ok ((), flush none w))
    (fun w => flush (some (e.written w.ops)) w)

/-- Close a stream that was open for writing. -/
def fcloseWrite : Command World (Except Errno Unit) :=
  syscall e ⟨.fclose, path⟩ []
    (fun w => .ok ((), {flush none w with stream := none, closed := w.closed ++ [path]}))
    (fun w => {flush (some (e.written w.ops)) w with stream := none})

def utime : Command World (Except Errno Unit) :=
  inspect e .utime path fun disk => (lookup disk path).map fun _ => ()

def syncPath : Command World Bool := do
  if !(← succeeds (inspect e .openPath path (lookup · path))) then pure false
  else if !(← succeeds (inspect e .fsync path fun _ => .ok ())) then do
    let _ ← inspect e .close path fun _ => .ok ()
    pure false
  else if !(← succeeds (inspect e .close path fun _ => .ok ())) then do
    let _ ← inspect e .close path fun _ => .ok ()
    pure false
  else pure true

/-- The loop over the entries of a directory that is to be removed. -/
def deltreeEntries (del : Path → Command World Bool) (dirname : Path) :
    Entries → Command World Bool
  | [] => do
    let _ ← readdir e dirname []
    pure true
  | entry :: rest => do
    if !(← succeeds (readdir e dirname (entry :: rest))) then pure true
    else if ← succeeds (unlink e (dirname ++ [entry.1])) then deltreeEntries del dirname rest
    else if ← del (dirname ++ [entry.1]) then deltreeEntries del dirname rest
    else pure false

/-- Remove a directory recursively, where directories are nested less than `levels` deep. -/
def deltreeLevels : ℕ → Path → Command World Bool
  | 0, _ => pure false
  | levels + 1, dirname => do
    match ← opendir e dirname with
    | .error errno => pure (errno == .noent)
    | .ok entries =>
      if !(← deltreeEntries e (deltreeLevels levels) dirname entries) then pure false
      else succeeds (rmdir e dirname)

def deltree (dirname : Path) : Command World Bool := do
  let levels ← gets fun w => w.disk.height + 1
  deltreeLevels e levels dirname

def configDestroy (subdir : String) : Command World Bool := do
  match ← stat e [subdir] with
  | .error errno => pure (errno == .noent)
  | .ok _ => do
    let removed ← unlink e [subdir, "meshlink.conf"]
    if removed matches .error .other then pure false
    else if !(← deltree e [subdir]) then pure false
    else syncPath e []

def configRename (source target : String) : Command World Bool := do
  if ← succeeds (rename e [source] [target]) then syncPath e [] else pure false

end Calls

section Files

variable (c : Cipher) (e : Env) (subdir : String)

/-- The contents of a configuration file, decrypted if there is a key. -/
def decode (key : Option Bytes) (data : Bytes) : Option Bytes :=
  match key with
  | none => some data
  | some key => if 12 < data.length then c.decrypt key (data.take 12) (data.drop 12) else none

def configReadFile (path : Path) (key : Option Bytes) : Command World (Option Bytes) := do
  if !(← succeeds (fseek e path)) then pure none
  else do
    let data ← gets fun w => (fileAt w.disk path).getD []
    if data.isEmpty then pure none
    else if !(← succeeds (fseek e path)) then pure none
    else do
      match ← fread e path with
      | .error _ => pure none
      | .ok data => pure (decode c key data)

/-- Only the plain branch flushes and syncs the file. -/
def configWriteFile (path : Path) (config : Bytes) (key : Option Bytes) : Command World Bool :=
  match key with
  | some key => do
    let n ← gets World.ops
    let nonce := (e.nonce n).toList
    if ← succeeds (fwrite e path nonce) then succeeds (fwrite e path (c.encrypt key nonce config))
    else pure false
  | none => do
    if !(← succeeds (fwrite e path config)) then pure false
    else if !(← succeeds (fflush e path)) then pure false
    else succeeds (inspect e .fsync path fun _ => .ok ())

def readConfigAt (path : Path) (key : Option Bytes) : Command World (Option Bytes) := do
  if !(← succeeds (fopenRead e path)) then pure none
  else do
    let config ← configReadFile c e path key
    let _ ← fcloseRead e path
    pure config

/-- The part of copytree for a regular file. -/
def copyFile (source : Path) (sourceKey : Option Bytes) (target : Path)
    (targetKey : Option Bytes) : Command World Bool := do
  if !(← succeeds (stat e source)) then pure false
  else if !(← succeeds (fopenRead e source)) then pure false
  else do
    match ← configReadFile c e source sourceKey with
    | none => do
      let _ ← fcloseRead e source
      pure false
    | some config =>
      if !(← succeeds (fcloseRead e source)) then pure false
      else if !(← succeeds (fopenWrite e target)) then pure false
      else if !(← configWriteFile c e target config targetKey) then do
        let _ ← fcloseWrite e target
        pure false
      else if !(← succeeds (fcloseWrite e target)) then pure false
      else succeeds (utime e target)

def isHidden (name : String) : Bool := name.toList.head? == some '.'

/-- Whether readdir gave the type of an entry. -/
def hasType (source : Path) (entry : String × Tree) : Command World Bool := fun w =>
  if e.untyped w.ops (source ++ [entry.1]) then
    (some false, {w with failures := w.failures ++ [⟨⟨.readdir, source⟩, [entry]⟩]})
  else (some true, w)

/-- The part of copytree for one entry. An entry that is not known to be a directory or a
regular file is passed over. -/
def copyEntry (copy : Path → Path → Command World Bool) (source : Path)
    (sourceKey : Option Bytes) (target : Path) (targetKey : Option Bytes)
    (entry : String × Tree) : Command World Bool := do
  if !(← hasType e source entry) then pure true
  else
    match entry with
    | (name, .dir _) => do
      if ← copy (source ++ [name]) (target ++ [name]) then syncPath e (target ++ [name])
      else pure false
    | (name, .file _) => copyFile c e (source ++ [name]) sourceKey (target ++ [name]) targetKey

/-- The loop over the entries of a directory that is copied. -/
def copyEntries (copy : Path → Path → Command World Bool) (source : Path)
    (sourceKey : Option Bytes) (target : Path) (targetKey : Option Bytes) :
    Entries → Command World Bool
  | [] => do
    let _ ← readdir e source []
    pure true
  | entry :: rest => do
    if !(← succeeds (readdir e source (entry :: rest))) then pure true
    else if isHidden entry.1 then copyEntries copy source sourceKey target targetKey rest
    else if ← copyEntry c e copy source sourceKey target targetKey entry then
      copyEntries copy source sourceKey target targetKey rest
    else pure false

/-- Copy a directory in which directories are nested less than `levels` deep. -/
def copytreeLevels (sourceKey targetKey : Option Bytes) : ℕ → Path → Path → Command World Bool
  | 0, _, _ => pure false
  | levels + 1, source, target => do
    match ← opendir e source with
    | .error _ => pure false
    | .ok entries =>
      if !(← deltree e target) then pure false
      else if !(← succeeds (mkdir e target)) then pure false
      else
        copyEntries c e (copytreeLevels sourceKey targetKey levels) source sourceKey target
          targetKey entries

def configCopy (source : String) (sourceKey : Option Bytes) (target : String)
    (targetKey : Option Bytes) : Command World Bool := do
  let levels ← gets fun w => w.disk.height + 1
  copytreeLevels c e sourceKey targetKey levels [source] [target]

/-- `newKey` is the hash of the key that the caller gives. -/
def meshlinkEncryptedKeyRotate (newKey : Bytes) : Command World Bool := do
  let key ← gets World.configKey
  if !(← configCopy c e "current" key "new" (some newKey)) then pure false
  else if !(← configRename e "current" "old") then pure false
  else if !(← configRename e "new" "current") then pure false
  else if !(← configDestroy e "old") then pure false
  else do
    update fun w => {w with configKey := some newKey}
    pure true

def mainPath : Path := [subdir, "meshlink.conf"]

def mainConfigExists : Command World Bool := succeeds (access e (mainPath subdir))

def mainConfigDecrypt : Command World Bool := do
  let key ← gets World.configKey
  match ← readConfigAt c e (mainPath subdir) key with
  | none => pure false
  | some config => pure ((getUint32 (some config)).1 == configVersion)

/-- Take the configuration from a sub-directory if the key fits. The result says
whether there is one and whether it was taken; `none` is an error. -/
def adopt : Command World (Option (Bool × Bool)) := do
  if !(← mainConfigExists e subdir) then pure (some (false, false))
  else if !(← mainConfigDecrypt c e subdir) then pure (some (true, false))
  else if !(← configDestroy e "current") then pure none
  else if !(← configRename e subdir "current") then pure none
  else pure (some (true, true))

/-- Sub-directories are looked at only with a key and until one has been found that it fits. -/
def adoptUnless (found : Bool) (subdir : String) : Command World (Option (Bool × Bool)) := do
  let key ← gets World.configKey
  if key.isSome && !found then adopt c e subdir else pure (some (false, false))

def currentDecryptable (present : Bool) : Command World Bool := do
  let key ← gets World.configKey
  if present && key.isSome then mainConfigDecrypt c e "current" else pure false

def meshlinkConfbaseExists : Command World Bool := do
  let present ← mainConfigExists e "current"
  let fits ← currentDecryptable c e present
  match ← adoptUnless c e fits "new" with
  | none => pure false
  | some new =>
    match ← adoptUnless c e (fits || new.2) "old" with
    | none => pure false
    | some old =>
      if (present || new.1 || old.1) && (fits || new.2 || old.2) then
        if !(← configDestroy e "old") then pure false
        else if !(← configDestroy e "new") then pure false
        else pure (present || new.1 || old.1)
      else pure (present || new.1 || old.1)

variable (f : Format)

def meshlinkReadConfig : Command World Bool := do
  let key ← gets World.configKey
  match ← readConfigAt c e (mainPath "current") key with
  | none => pure false
  | some config =>
    match f.mainName config with
    | none => pure false
    | some name =>
      match ← readConfigAt c e ["current", "hosts", name] key with
      | none => pure false
      | some host => pure (f.hostOk name host)

inductive Opened
  | opened
  | failed
  | created
  deriving DecidableEq

/-- Open a configuration with a key; a fresh one is created if there is none. -/
def openWith (key : Bytes) : Command World Opened := do
  update fun w => {w with configKey := some key}
  if !(← meshlinkConfbaseExists c e) then pure .created
  else if ← meshlinkReadConfig c e f then pure .opened
  else pure .failed

def mainConfigWrite (config : Bytes) (key : Option Bytes) : Command World Bool := do
  let tmpPath := [subdir, "meshlink.conf.tmp"]
  if !(← succeeds (fopenWrite e tmpPath)) then pure false
  else if !(← configWriteFile c e tmpPath config key) then do
    let _ ← fcloseWrite e tmpPath
    pure false
  else if !(← succeeds (rename e tmpPath (mainPath subdir))) then do
    let _ ← fcloseWrite e tmpPath
    pure false
  else succeeds (fcloseWrite e tmpPath)

end Files

end Meshlink.Storage
