import LuaTyping.Config.Basic
import LuaTyping.Config.Json
import LuaTyping.Config.Load
import LuaTyping.Definition
import LuaTyping.Feature
import LuaTyping.Guard
import LuaTyping.Index.Basic
import LuaTyping.Index.Contributions
import LuaTyping.Index.Entry
import LuaTyping.Index.Query
import LuaTyping.Index.Shared
import LuaTyping.Instantiation
import LuaTyping.Json.Number
import LuaTyping.Json.Record
import LuaTyping.Json.Scan
import LuaTyping.Json.Skip
import LuaTyping.Logging
import LuaTyping.Notice
import LuaTyping.Operator.Kind
import LuaTyping.Operator.Overload
import LuaTyping.Origin
import LuaTyping.Origin.Json
import LuaTyping.Proofs.DocumentHistories
import LuaTyping.Proofs.EntryLog
import LuaTyping.Proofs.IndexAnswers
import LuaTyping.Proofs.IndexConsistency
import LuaTyping.Proofs.IndexLog
import LuaTyping.Proofs.InstantiationResults
import LuaTyping.Proofs.MoreDeclarations
import LuaTyping.Proofs.PairedQueries
import LuaTyping.Proofs.RepeatedInstantiation
import LuaTyping.Proofs.SubtypeChecking
import LuaTyping.Proofs.SubtypeRelation
import LuaTyping.Proofs.SufficientLimits
import LuaTyping.Proofs.SupertypeSearch
import LuaTyping.Proofs.TypeEquality
import LuaTyping.Proofs.TypeNodes
import LuaTyping.Proofs.WiderLimits
import LuaTyping.Store
import LuaTyping.Substitution
import LuaTyping.Subtyping.Check
import LuaTyping.Subtyping.Finding
import LuaTyping.Subtyping.Report
import LuaTyping.Subtyping.Walk
import LuaTyping.Table
import LuaTyping.Text.Blank
import LuaTyping.Text.Escape
import LuaTyping.Ty.Basic
import LuaTyping.Ty.Equality
import LuaTyping.Ty.Fingerprint
import LuaTyping.Ty.Render
import LuaTyping.Proofs.EqualFingerprints
import LuaTyping.Proofs.UnionMembers
import LuaTyping.Proofs.EqualInstances
import LuaTyping.Proofs.ComposedSubstitutions
import LuaTyping.Proofs.Renamings
import LuaTyping.Proofs.TextReading
import LuaTyping.Proofs.UnambiguousText
import LuaTyping.Proofs.UnboundInstantiation
import LuaTyping.Proofs.IndexOverflow
import LuaTyping.Proofs.PositionalTuples
import LuaTyping.Proofs.EquivalentQueries
import LuaTyping.Proofs.WalkRecords
import LuaTyping.Proofs.QueryRuns
import LuaTyping.Proofs.QueryBudget
import LuaTyping.Proofs.DeclaredSupertypes
import LuaTyping.Proofs.LimitReports
import LuaTyping.Proofs.SurvivingDefinitions
import LuaTyping.Proofs.RemovalCounts
import LuaTyping.Proofs.GuardHistories
import LuaTyping.Proofs.EntryHistories
