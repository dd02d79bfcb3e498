import YangToProto.Proto.ScalarTable
import YangToProto.Proto.Identifier

/-!
# Configuration of a run

Path compression decides which messages there are. Everything else in a configuration only names
packages, chooses the table of scalars or annotates what is written.
-/

namespace YangToProto

structure Config where
  /-- Leave out containers that only group: `config`, `state` and those around a single list. -/
  compressPaths : Bool := false
  /-- First part of every generated package name. -/
  basePackage : String := "openconfig"
  /-- Package of the shared enums, below the base package. -/
  enumPackageName : String := "enums"
  /-- What stands before the import paths of generated packages. -/
  baseImportPath : String := ""
  /-- Name of the generating program in header comments. -/
  callerName : String := "yang-protogen"
  /-- Give leaves wrapper messages for plain scalars. -/
  wrapperTypes : Bool := false
  /-- Give each field an option that holds its schema path. -/
  annotateSchemaPaths : Bool := false
  /-- File that records the tags of earlier runs. -/
  tagLedger : Option String := none
deriving DecidableEq

namespace Config

/-- Full name of the package of shared enums. -/
def enumPackage (config : Config) : String := s!"{config.basePackage}.{config.enumPackageName}"

/-- Import path that a field gives for a shared enum. The two names are joined as they are:
dots inside them stay dots. -/
def enumImport (config : Config) : String := s!"{config.basePackage}/{config.enumPackageName}"

/-- The scalars of leaves that are not keys. -/
def valueTable (config : Config) : ScalarTable :=
  if config.wrapperTypes then .wrapper else .plain

end Config

structure Sources where
  yangFiles : List String := []
  includePaths : List String := []
deriving DecidableEq

end YangToProto
