import ParserGraph.CommandLine.Directory
import ParserGraph.Main
import ParserGraph.Proofs.Arithmetic.Generated
import ParserGraph.Proofs.Arithmetic.Parsing
import ParserGraph.Proofs.CommandLine.Evaluation
import ParserGraph.Proofs.Digits.Parsing
import ParserGraph.Proofs.Evaluation.Nesting
import ParserGraph.Proofs.Graph.Dump
import ParserGraph.Proofs.Graph.Redirection
import ParserGraph.Proofs.Json.RoundTrip
import ParserGraph.Proofs.Workspace.Compactions
import ParserGraph.Proofs.Workspace.History
import ParserGraph.Workspace.Basic
import ParserGraph.Proofs.Graph.Confluence
import ParserGraph.Proofs.Grammar.Refusal
import ParserGraph.Proofs.Evaluation.Returning
import ParserGraph.Proofs.Arithmetic.Longest
import ParserGraph.Proofs.Evaluation.Leveling
import ParserGraph.Proofs.Arithmetic.Parentheses
import ParserGraph.Proofs.Evaluation.Locality
import ParserGraph.Proofs.Evaluation.OneOrMore
import ParserGraph.Proofs.Evaluation.Grouping
import ParserGraph.Proofs.Generator.Seeds
import ParserGraph.Proofs.Graph.Enumeration
