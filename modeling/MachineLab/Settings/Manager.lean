import MachineLab.Archive.Files
import MachineLab.Settings.Definition

/-!
# The settings of a user

Settings are kept in a store and read through a cache.  A stored value is converted to the kind of
the setting's default and checked; a value that does not pass gives way to the default.  Changes made in
a batch reach the store one after the other when the batch ends.

Values are reported in messages, and a value that cannot be written is a fault there, also where it has
just been stored.  Values are compared as deep as they are nested.

## Main definitions

* `Settings`, `Ledger`, `SettingsM` — the cache and the batch, over a store.
* `SettingsM.search`, `SettingsM.get` — looking for a setting in the store, and reading it.
* `SettingsM.replace`, `SettingsM.set` — changing a setting.
* `SettingsM.beginBatch`, `SettingsM.endBatch`, `SettingsM.resetAll`.
* `SettingsM.exportTo`, `SettingsM.importFrom` — settings as a file.
-/

namespace MachineLab

/-- What is remembered on top of the store. -/
structure Settings where
  cache : Dict Value
  /-- The changes of the open batch, if there is one. -/
  batch : Option (Dict Value)
deriving Repr, Inhabited

/-- A store of settings with what is remembered on top of it, and the files around. -/
structure Ledger where
  store : Dict Value
  settings : Settings
  files : Directory
  journal : Journal
  room : Room
deriving Inhabited

/-- Work with settings.  Whatever was done before a fault stays done. -/
abbrev SettingsM := EStateM Fault Ledger

namespace Settings

def fresh : Settings := ⟨[], none⟩

/-- The number of files that are remembered as opened lately. -/
def maxRecentFiles : Nat := 10

/-- The texts that stand for true, in lower case.  Only ASCII letters have these lower-case forms. -/
def trueWords : List String := ["true", "1", "t", "y", "yes"]

def asBool : Value → Bool
  | .text s => trueWords.contains (String.ofList (s.toList.map Char.toLower))
  | v => v.truth

def asInt : Value → Except Fault Int
  | .int n => .ok n
  | .bool b => .ok (if b then 1 else 0)
  | .float .nan => .error (.mismatch .undefinedInteger)
  | .float x =>
    match x.truncate? with
    | some n => .ok n
    | none => .error (.mismatch .infiniteInteger)
  | .text s =>
    match Text.readInt s with
    | .ok n => .ok n
    | .error .malformed => .error (.mismatch (.badInteger s))
    | .error (.tooLong n) => .error (.mismatch (.longInteger n))
  | v => .error (.mismatch (.notInteger v.kind))

def asNumber : Value → Except Fault Binary64
  | .float x => .ok x
  | .bool b => .ok (Binary64.ofInt (if b then 1 else 0))
  | .int n =>
    match Binary64.ofInt n with
    | .infinite _ => .error (.mismatch .hugeNumber)
    | x => .ok x
  | .text s =>
    match Text.readNumber? s with
    | some x => .ok x
    | none => .error (.mismatch (.badNumber s))
  | v => .error (.mismatch (.notNumber v.kind))

/-- The list that a text stands for: nothing for the empty text, the value of a JSON text, and any
other text as the only item. -/
def listOfText (room : Room) (s : String) : Except Fault Value :=
  if s = "" then .ok (.list [])
  else match Json.read room.reading s with
    | .ok v => .ok v
    | .error (.longNumeral n) => .error (.mismatch (.longInteger n))
    | .error (.tooDeep bracket) => .error (.mismatch (.deepText bracket))
    | .error (.malformed _ _ _ _) => .ok (.list [.text s])

/-- How a value is written in a message. -/
def spelled (room : Room) (v : Value) : Except Fault String :=
  match v.writeError? room.writing with
  | none => .ok v.display
  | some e => .error (.mismatch (.unwritable e))

end Settings

namespace SettingsM

def ofExcept {α : Type} : Except Fault α → SettingsM α
  | .ok a => pure a
  | .error e => throw e

def record (level : LogLevel) (message : String) : SettingsM Unit :=
  modify fun l => { l with journal := l.journal.record level .settings message }

/-- Write a value for a message. -/
def spell (v : Value) : SettingsM String := do ofExcept (Settings.spelled (← EStateM.get).room v)

def tell (e : Event) : SettingsM Unit := modify fun l => { l with journal := l.journal.tell e }

def remember (key : String) (v : Value) : SettingsM Unit :=
  modify fun l =>
    { l with settings := { l.settings with cache := Dict.insert l.settings.cache key v } }

def putStored (key : String) (v : Value) : SettingsM Unit :=
  modify fun l => { l with store := Dict.insert l.store key v }

/-- Put the defaults into the store where it has nothing. -/
def putDefaults : List Definition → SettingsM Unit
  | [] => pure ()
  | d :: rest => do
    if !Dict.contains (← get).store d.key then
      record .info
        ("Setting '" ++ d.key ++ "' not found, initializing with default: " ++ d.default.display)
      putStored d.key d.default
    putDefaults rest

/-- Start working with a store. -/
def start : SettingsM Unit := do
  modify fun l => { l with settings := Settings.fresh }
  record .info "Settings will be loaded/saved at: memory"
  putDefaults Definition.all

/-- Convert a stored value to the kind of a default. -/
def convert (v fallback : Value) : SettingsM Value := do
  match fallback with
  | .bool _ => return .bool (Settings.asBool v)
  | .int _ => return .int (← ofExcept (Settings.asInt v))
  | .float _ => return .float (← ofExcept (Settings.asNumber v))
  | .list _ =>
    match v with
    | .list _ => return v
    | .text s => ofExcept (Settings.listOfText (← EStateM.get).room s)
    | _ =>
      record .warning ("Could not convert value to list: " ++ (← spell v))
      return fallback
  | _ => return v

/-- Convert and check a stored value, falling back to a default. -/
def convertChecked (d : Definition) (v fallback : Value) : SettingsM Value := do
  let converted ← convert v d.default
  if ← ofExcept (d.validate converted) then return converted
  record .warning
    ("Setting '" ++ d.key ++ "' value '" ++ (← spell converted) ++
      "' failed validation. Using default.")
  return fallback

/-- Whether a fault only says that a value is of no use. -/
def isBadValue : Fault → Bool
  | .mismatch m => m.family == .kind || m.family == .value
  | _ => false

/-- What is done about a fault of a conversion: if it only says that the value is of no use, the fallback
takes its place. -/
def complain (d : Definition) (v fallback : Value) (e : Fault) : SettingsM Value := do
  if isBadValue e then
    record .warning
      ("Could not convert setting '" ++ d.key ++ "' with value '" ++ (← spell v) ++
        "' to expected type. Error: " ++ e.message ++ ". Using default.")
    return fallback
  else throw e

/-- What a setting reads as that has a value in the store, or null for none. -/
def search (d : Definition) (override : Value) : Value → SettingsM Value
  | .null => do
    record .debug ("Setting '" ++ d.key ++ "' is None in storage. Using default.")
    return d.fallback override
  | v => tryCatch (convertChecked d v (d.fallback override)) (complain d v (d.fallback override))

/-- The value of a setting: what is remembered, or else what is stored, if it is of use, or else the
override, if there is one, or else the default.  Whatever is found is remembered. -/
def get (key : String) (override : Value) : SettingsM Value := do
  match Dict.find? (← EStateM.get).settings.cache key with
  | some v => return v
  | none =>
    match Definition.find? key with
    | none =>
      record .warning ("Unknown setting key: '" ++ key ++ "'")
      return override
    | some d =>
      let found ← search d override ((Dict.find? (← EStateM.get).store key).getD .null)
      remember key found
      return found

/-- Give a setting an allowed value in place of the old one, unless it is the same. -/
def replace (key : String) (v old : Value) : SettingsM Bool := do
  if old.eqv v && old.kind == v.kind then
    record .debug ("Setting '" ++ key ++ "' set to same value: " ++ (← spell v) ++ ". No change.")
    return true
  remember key v
  match (← EStateM.get).settings.batch with
  | some changes =>
    modify fun l =>
      { l with settings := { l.settings with batch := some (Dict.insert changes key v) } }
  | none =>
    putStored key v
    tell (.settingChanged key v)
    record .info ("Setting '" ++ key ++ "' changed to: " ++ (← spell v))
  return true

/-- Change a setting; says whether the value was accepted. -/
def set (key : String) (v : Value) : SettingsM Bool := do
  match Definition.find? key with
  | none =>
    record .warning ("Unknown setting key: '" ++ key ++ "'. Not setting.")
    return false
  | some d =>
    if !(← ofExcept (d.validate v)) then
      record .error
        ("Setting '" ++ key ++ "' value '" ++ (← spell v) ++ "' failed validation. Not setting.")
      return false
    replace key v (← get key .null)

/-- Put a file in front of the files opened lately. -/
def addRecentFile (path : String) : SettingsM Unit := do
  let recent ← get Definition.recentFiles.key .null
  let others := (← ofExcept recent.elements).filter fun p => !p.eqv (.text path)
  discard <| set Definition.recentFiles.key
    (.list ((.text path :: others).take Settings.maxRecentFiles))

def getAll : List Definition → SettingsM (Dict Value)
  | [] => pure []
  | d :: rest => do
    let v ← get d.key .null
    return (d.key, v) :: (← getAll rest)

def getCategory (c : Category) : SettingsM (Dict Value) :=
  getAll (Definition.all.filter (·.category == c))

/-! ## Batches -/

/-- Open a batch.  Changes of a batch that was open are dropped. -/
def beginBatch : SettingsM Unit :=
  modify fun l => { l with settings := { l.settings with batch := some [] } }

/-- Carry changes over into the store, up to one that cannot be reported. -/
def commit : Dict Value → SettingsM Unit
  | [] => pure ()
  | (key, v) :: rest => do
    putStored key v
    tell (.settingChanged key v)
    record .info ("Batch setting '" ++ key ++ "' changed to: " ++ (← spell v))
    commit rest

/-- End the batch, if one is open.  It is over even if not all of its changes reach the store. -/
def endBatch : SettingsM Unit := do
  match (← EStateM.get).settings.batch with
  | none => pure ()
  | some changes =>
    modify fun l => { l with settings := { l.settings with batch := none } }
    commit changes

/-- The default of every setting. -/
def defaults : Dict Value := Definition.all.map fun d => (d.key, d.default)

def resetAll : SettingsM Unit := do
  record .info "Resetting all settings to defaults."
  modify fun l =>
    { l with
      store := defaults.foldl (fun s e => Dict.insert s e.1 e.2) l.store
      settings := ⟨defaults, some defaults⟩ }
  endBatch
  tell .settingsReset
  record .info "Settings have been reset to default values."

def clearCache : SettingsM Unit :=
  modify fun l => { l with settings := { l.settings with cache := [] } }

/-- Bring the store to disk. -/
def sync : SettingsM Unit := record .debug "Settings synced to disk."

/-! ## Files -/

/-- Write all settings to a file; says whether that worked. -/
def exportTo (path : String) : SettingsM Bool := do
  let values ← getAll Definition.all
  ofExcept (checkPath path)
  let written := Json.write Json.Layout.settings (.object values)
  match (← EStateM.get).files.write path (Text.Utf8.encode written.text) with
  | .error e =>
    record .error ("Failed to export settings to '" ++ path ++ "': " ++ e.message path)
    return false
  | .ok files =>
    modify fun l => { l with files }
    if !written.whole then throw (.mismatch (.unwritable .longInteger))
    record .info ("Settings exported to: " ++ path)
    return true

/-- Change the settings that a file names; others, and values that are not allowed, are skipped. -/
def applyFields : Dict Value → SettingsM Unit
  | [] => pure ()
  | (key, v) :: rest => do
    if (Definition.find? key).isSome then discard <| set key v
    applyFields rest

def refuseImport (path reason : String) : SettingsM Bool := do
  record .error ("Failed to import settings from '" ++ path ++ "': " ++ reason)
  return false

/-- Take settings over from a file; says whether that worked.  A file that is not text at all is a
fault, and so is one with too long an integer or too deep a nesting.  All changes of a file form one
batch, which ends also after a fault. -/
def importFrom (path : String) : SettingsM Bool := do
  let l ← EStateM.get
  match l.files.readJson l.room path with
  | .error e =>
    match e.fault? with
    | some cause => throw cause
    | none => refuseImport path e.message
  | .ok (.object fields) =>
    beginBatch
    try applyFields fields
    catch e =>
      endBatch
      throw e
    endBatch
    record .info ("Settings imported from: " ++ path)
    return true
  | .ok _ => refuseImport path "expected a JSON object."

end SettingsM

end MachineLab
