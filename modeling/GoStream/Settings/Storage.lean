import GoStream.Foundations.Disk

/-!
# Where the settings are stored
-/

namespace GoStream.Settings

open Foundations

structure BTSets where
  cacheSize : ℤ := 0
  readerReadAHead : ℤ := 0
  preloadCache : ℤ := 0
  useDisk : Bool := false
  torrentsSavePath : Bytes := []
  removeCacheOnDrop : Bool := false
  forceEncrypt : Bool := false
  retrackersMode : ℤ := 0
  torrentDisconnectTimeout : ℤ := 0
  enableDebug : Bool := false
  enableIPv6 : Bool := false
  disableTCP : Bool := false
  disableUTP : Bool := false
  disableUPNP : Bool := false
  disableDHT : Bool := false
  disablePEX : Bool := false
  disableUpload : Bool := false
  downloadRateLimit : ℤ := 0
  uploadRateLimit : ℤ := 0
  connectionsLimit : ℤ := 0
  peersListenPort : ℤ := 0
  blockListURL : Bytes := []
  sslPort : ℤ := 0
  sslCert : Bytes := []
  sslKey : Bytes := []
  responsiveMode : Bool := false
  adaptiveShield : Bool := false
  showFSActiveTorr : Bool := false
  storeSettingsInJson : Bool := false
  deriving DecidableEq

namespace BTSets

def defaults : BTSets where
  cacheSize := 128 * 1024 * 1024
  preloadCache := 0
  connectionsLimit := 25
  retrackersMode := 1
  torrentDisconnectTimeout := 30
  readerReadAHead := 75
  responsiveMode := true
  showFSActiveTorr := true
  storeSettingsInJson := true

def orDefault (default x : ℤ) : ℤ := if x ≤ 0 then default else x

def within (lo hi x : ℤ) : ℤ := if x < lo then lo else if x > hi then hi else x

def failsafe (sets : BTSets) : BTSets :=
  { sets with
    cacheSize := orDefault (128 * 1024 * 1024) sets.cacheSize
    connectionsLimit := orDefault 25 sets.connectionsLimit
    torrentDisconnectTimeout := orDefault 30 sets.torrentDisconnectTimeout
    readerReadAHead := within 5 100 sets.readerReadAHead
    preloadCache := within 0 100 sets.preloadCache
    useDisk := !sets.torrentsSavePath.isEmpty && sets.useDisk }

def plain (sets : BTSets) : BTSets := { sets with storeSettingsInJson := false }

def withStorage (sets : BTSets) (inJson : Bool) : BTSets :=
  { sets with storeSettingsInJson := inJson }

@[simp] theorem plain_withStorage (sets : BTSets) (inJson : Bool) :
    (sets.withStorage inJson).plain = sets.plain := rfl

theorem failsafe_withStorage (sets : BTSets) (inJson : Bool) :
    (sets.withStorage inJson).failsafe = sets.failsafe.withStorage inJson := rfl

theorem orDefault_orDefault {default : ℤ} (h : 0 < default) (x : ℤ) :
    orDefault default (orDefault default x) = orDefault default x := by
  unfold orDefault
  split_ifs <;> omega

theorem within_within {lo hi : ℤ} (h : lo ≤ hi) (x : ℤ) :
    within lo hi (within lo hi x) = within lo hi x := by
  unfold within
  split_ifs <;> omega

theorem failsafe_failsafe (sets : BTSets) : sets.failsafe.failsafe = sets.failsafe := by
  unfold failsafe
  congr 1
  · exact orDefault_orDefault (by norm_num) _
  · exact within_within (by norm_num) _
  · exact within_within (by norm_num) _
  · rw [← Bool.and_assoc, Bool.and_self]
  · exact orDefault_orDefault (by norm_num) _
  · exact orDefault_orDefault (by norm_num) _

end BTSets

structure Stores where
  json : Option BTSets
  bbolt : Option BTSets

namespace Stores

variable (d : Stores) (inJson : Bool)

def empty : Stores := ⟨none, none⟩

def get : Option BTSets := if inJson then d.json else d.bbolt

def put (entry : Option BTSets) : Stores :=
  if inJson then { d with json := entry } else { d with bbolt := entry }

def set (sets : BTSets) : Stores := d.put inJson (some sets)

def rem : Stores := d.put inJson none

variable {d}

theorem get_put (entry : Option BTSets) (other : Bool) :
    (d.put inJson entry).get other = if other = inJson then entry else d.get other := by
  cases inJson <;> cases other <;> rfl

@[simp] theorem get_set_self (sets : BTSets) : (d.set inJson sets).get inJson = some sets := by
  rw [set, get_put, if_pos rfl]

def migrateSingle (d : Stores) (toJson : Bool) : Stores × Bool :=
  match d.get (!toJson) with
  | none => (d, false)
  | some sourceData =>
    if d.get toJson = some sourceData then (d, false) else (d.set toJson sourceData, true)

def safeMigrate (d : Stores) (toJson : Bool) : Stores :=
  let (after, migrated) := d.migrateSingle toJson
  if migrated then after.rem (!toJson) else after

def loadExistingSettings (d : Stores) : Option BTSets := d.json.or d.bbolt

def determineStoragePreferences (d : Stores) (env : Option Bool) : Bool :=
  match d.loadExistingSettings with
  | some existing => existing.storeSettingsInJson
  | none => env.getD true

def loadBTSets (d : Stores) (inJson : Bool) : BTSets × Stores :=
  match d.get inJson with
  | some sets =>
    ({ sets with readerReadAHead := if sets.readerReadAHead < 5 then 5 else sets.readerReadAHead }, d)
  | none => (.defaults, d.set inJson .defaults)

end Stores

structure Process where
  settingsInJson : Bool
  btSets : BTSets

namespace Process

def setBTSets (p : Process) (d : Stores) (sets : BTSets) : Process × Stores :=
  ({ p with btSets := sets.failsafe }, d.set p.settingsInJson sets.failsafe)

def setDefaultConfig (p : Process) (d : Stores) : Process × Stores :=
  ({ p with btSets := .defaults }, d.set p.settingsInJson .defaults)

def initSets (d : Stores) (env : Option Bool) : Process × Stores :=
  let settingsStoragePref := d.determineStoragePreferences env
  let d := d.safeMigrate settingsStoragePref
  let (sets, d) := d.loadBTSets settingsStoragePref
  let p : Process := ⟨settingsStoragePref, sets⟩
  if sets.storeSettingsInJson ≠ settingsStoragePref then
    p.setBTSets d (sets.withStorage settingsStoragePref)
  else (p, d)

def switchSettingsStorage (p : Process) (d : Stores) (useJson : Bool) : Process × Stores :=
  let (p, d) := p.setBTSets d (p.btSets.withStorage useJson)
  (p, (d.migrateSingle useJson).1)

def findCacheDir (p : Process) (path : Bytes) : Process :=
  if p.btSets.useDisk ∧ p.btSets.torrentsSavePath ≠ [] then
    { p with btSets := { p.btSets with torrentsSavePath := path } }
  else p

end Process

end GoStream.Settings
