import ShiftReduce.Grammar.Shorthand
import ShiftReduce.Grammar.Fragment
import ShiftReduce.Grammar.Display
import ShiftReduce.Fingerprint
import ShiftReduce.Automaton.Listing
import ShiftReduce.Table.Listing
import ShiftReduce.Table.Json
import ShiftReduce.Parse.Trace
import ShiftReduce.Parse.Build
import ShiftReduce.Calc.Grammar
import ShiftReduce.Calc.Lexer
import ShiftReduce.Cache.Log
import ShiftReduce.Cache.FileTree
import ShiftReduce.Main
import ShiftReduce.Proofs.Parse.Exact
import ShiftReduce.Proofs.Parse.Fallback
import ShiftReduce.Proofs.Parse.Operators
import ShiftReduce.Proofs.Parse.Prefix
import ShiftReduce.Proofs.Cache.Transparent
import ShiftReduce.Proofs.Grammar.Content
import ShiftReduce.Proofs.Parse.Expected
import ShiftReduce.Proofs.Parse.Fragment
import ShiftReduce.Proofs.Parse.Termination
import ShiftReduce.Proofs.Parse.Callback
import ShiftReduce.Proofs.Table.Clash
import ShiftReduce.Proofs.Table.WellFormed
import ShiftReduce.Proofs.Calc.Parse
import ShiftReduce.Proofs.Cache.Intact
import ShiftReduce.Proofs.Grammar.Operation
import ShiftReduce.Proofs.Grammar.Shorthand
import ShiftReduce.Proofs.Table.Dispute
import ShiftReduce.Proofs.Cache.Healing
import ShiftReduce.Proofs.Parse.Lists
import ShiftReduce.Proofs.Grammar.Refusal
import ShiftReduce.Proofs.Grammar.FragmentRules
import ShiftReduce.Proofs.Parse.Stream
import ShiftReduce.Proofs.Calc.Lexer
import ShiftReduce.Proofs.Grammar.First
import ShiftReduce.Proofs.Grammar.Defined
import ShiftReduce.Proofs.Grammar.Precedence
import ShiftReduce.Proofs.Parse.Repetition
import ShiftReduce.Proofs.Automaton.Regrouping
import ShiftReduce.Proofs.Automaton.Lowering
import ShiftReduce.Proofs.Table.Recurring
import ShiftReduce.Proofs.Automaton.InPlace
import ShiftReduce.Proofs.Automaton.Keys
import ShiftReduce.Proofs.Grammar.Padding
import ShiftReduce.Proofs.Parse.Padding
import ShiftReduce.Proofs.Grammar.Interning
import ShiftReduce.Proofs.Grammar.Narrow
import ShiftReduce.Proofs.Parse.Walks
