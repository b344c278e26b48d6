import PkgConfig.Package

namespace PkgConfig

/-! Where packages are found. A path leads to its own file; a name is looked for
in the directories of the search path, and the first file that exists is
taken. -/

/-! ## The builtin package -/

namespace Builtin

def name : String := "pkg-config"

def version : String := "0.1.0"

def source : String :=
  "Name: pcmeta\nVersion: " ++ version ++ "\nDescription:\n"

end Builtin

namespace Package

/-- Read a file for a package and charge its size. An absent file costs
nothing. -/
def read? (settings : Settings) (name path : String) : Run (Option String) :=
  match settings.loader.load path with
  | .absent => return none
  | .failed cause => throw (.packageUnreadable name path cause)
  | .contents text => do
      Run.charge text.utf8ByteSize
      return some text

structure Located where
  path : String
  source : String
  deriving DecidableEq, Repr

def locateAmong? (settings : Settings) (token : String) :
    List String → Run (Option Located)
  | [] => return none
  | candidate :: rest => do
      Run.note (.tried candidate)
      match ← read? settings token candidate with
      | some source => return some ⟨candidate, source⟩
      | none => locateAmong? settings token rest

/-- Look for a token in the directories of the search path. The builtin package
is not looked for, and poses as the first candidate. -/
def locateByName? (settings : Settings) (token : String) :
    Run (Option Located) :=
  let candidates := settings.searchPath.candidates token
  if token = Builtin.name then
    return some ⟨candidates.headD (Builtin.name ++ ".pc"), Builtin.source⟩
  else
    locateAmong? settings token candidates

def locate? (settings : Settings) (token : String) : Run (Option Located) :=
  if Location.isMetadataFile token then do
    Run.note (.consulted token)
    match ← read? settings token token with
    | some source => return some ⟨token, source⟩
    | none => locateByName? settings token
  else
    locateByName? settings token

def find (settings : Settings) (token : String) : Run Package := do
  match ← locate? settings token with
  | some located =>
      ofSource settings (Location.realname token) located.path located.source
  | none => throw (.packageNotFound token)

/-! ## Listing -/

structure Inventory where
  seen : List String
  packages : Table String Package

namespace Inventory

def empty : Inventory := ⟨[], .empty⟩

/-- Load one listed file with a budget of its own. The first file of a name is
the only one, even if it is broken. -/
def scanFile (settings : Settings) (directory file : String)
    (inventory : Inventory) (events : List Event) :
    Inventory × List Event :=
  let realname := Location.realname file
  if inventory.seen.contains realname then
    (inventory, events)
  else
    let path := Location.metadataFile directory realname
    let seen := realname :: inventory.seen
    let load : Run (Option Package) := do
      Run.note (.consulted path)
      match ← read? settings realname path with
      | some source =>
          let package ← ofSource settings realname path source
          return some package
      | none => return none
    match load { settings.freshLedger with events := events } with
    | .ok (some package) ledger =>
        (⟨seen, inventory.packages.insert realname package⟩, ledger.events)
    | .ok none ledger => (⟨seen, inventory.packages⟩, ledger.events)
    | .error error ledger =>
        (⟨seen, inventory.packages⟩, .skipped path error :: ledger.events)

def scanDirectory (settings : Settings) (directory : String)
    (inventory : Inventory) (events : List Event) :
    Inventory × List Event :=
  (settings.loader.list directory).foldl
    (fun (inventory, events) file =>
      scanFile settings directory file inventory events)
    (inventory, .listed directory :: events)

end Inventory

def scanAll (settings : Settings) : Run (Table String Package) := fun ledger =>
  let (inventory, events) := settings.searchPath.directories.foldl
    (fun (inventory, events) directory =>
      Inventory.scanDirectory settings directory inventory events)
    (Inventory.empty, ledger.events)
  .ok inventory.packages { ledger with events := events }

end Package

end PkgConfig
