import SetAssoc.Describe
import SetAssoc.Hierarchy.Operation
import SetAssoc.Main
import SetAssoc.Proofs.Cache.Sound
import SetAssoc.Proofs.Cache.Reachable
import SetAssoc.Proofs.Cache.Undo
import SetAssoc.Proofs.Cache.Ranks
import SetAssoc.Proofs.Line.RecencyList
import SetAssoc.Proofs.Cache.RecencyList
import SetAssoc.Proofs.Hierarchy.Visit
import SetAssoc.Proofs.Hierarchy.Sound
import SetAssoc.Proofs.Hierarchy.Journal
import SetAssoc.Proofs.Hierarchy.Run
import SetAssoc.Proofs.Hierarchy.Undo
import SetAssoc.Proofs.Cache.Log
import SetAssoc.Proofs.Cache.Census
import SetAssoc.Proofs.Cache.LogContents
import SetAssoc.Proofs.Cache.Writeback
import SetAssoc.Proofs.Hierarchy.Streams
import SetAssoc.Proofs.Hierarchy.Survivors
import SetAssoc.Proofs.Hierarchy.Balance
import SetAssoc.Proofs.Address
import SetAssoc.Proofs.Line.Inclusion
import SetAssoc.Proofs.Cache.WellFormed
import SetAssoc.Proofs.Line.Materialization
import SetAssoc.Proofs.Cache.Equivalence
import SetAssoc.Proofs.Cache.Inclusion
import SetAssoc.Proofs.Address.Decomposition
import SetAssoc.Proofs.Address.Word
import SetAssoc.Proofs.Cache.Restart
import SetAssoc.Proofs.Hierarchy.Atomicity
import SetAssoc.Proofs.Cache.WriteThrough
import SetAssoc.Proofs.Trace.Lines
import SetAssoc.Proofs.Cache.Broadcast
import SetAssoc.Proofs.Cache.Draws
import SetAssoc.Proofs.Document
import SetAssoc.Proofs.Cache.Effect
import SetAssoc.Proofs.Cache.Independence
import SetAssoc.Proofs.Cache.DirectMapped
import SetAssoc.Proofs.Trace.Grammar
import SetAssoc.Proofs.Config.Decoding
import SetAssoc.Proofs.Hierarchy.Building
import SetAssoc.Proofs.Config.Geometry
import SetAssoc.Proofs.StorageCost
import SetAssoc.Proofs.Random.Uniform
import SetAssoc.Proofs.Line.Reversal
