import ExprLexer.Listing.Load
import ExprLexer.Json.Reader
import ExprLexer.Text.Base64
import ExprLexer.Scan.Session
import ExprLexer.Main
import ExprLexer.Proofs.Scan.Gap
import ExprLexer.Proofs.Scan.Lexeme
import ExprLexer.Proofs.Scan.Tiling
import ExprLexer.Proofs.Scan.Arrangement
import ExprLexer.Proofs.Scan.Place
import ExprLexer.Proofs.Scan.Sharing
import ExprLexer.Proofs.Scan.Report
import ExprLexer.Proofs.Text.Digits
import ExprLexer.Proofs.Yaml.Input
import ExprLexer.Proofs.Yaml.Quoted
import ExprLexer.Proofs.Yaml.Plain
import ExprLexer.Proofs.Yaml.Tokenizer
import ExprLexer.Proofs.Yaml.Written
import ExprLexer.Proofs.Yaml.Fields
import ExprLexer.Proofs.Yaml.Node
import ExprLexer.Proofs.Yaml.Writer
import ExprLexer.Proofs.Listing.Record
import ExprLexer.Proofs.Yaml.Document
import ExprLexer.Proofs.Listing.Yaml
import ExprLexer.Proofs.Command.Access
import ExprLexer.Proofs.Command.Scan
import ExprLexer.Proofs.Command.Arguments
import ExprLexer.Proofs.Command.Precedence
import ExprLexer.Proofs.Scan.Joining
import ExprLexer.Proofs.Scan.Appending
import ExprLexer.Proofs.Scan.Respacing
import ExprLexer.Proofs.Scan.LineEnds
import ExprLexer.Proofs.Settings.Load
import ExprLexer.Proofs.Yaml.Flow
import ExprLexer.Proofs.Json.Printer
import ExprLexer.Proofs.Listing.Json
import ExprLexer.Proofs.Yaml.Levels
import ExprLexer.Proofs.Yaml.Reading
import ExprLexer.Proofs.Yaml.Fault
import ExprLexer.Proofs.Yaml.Load
import ExprLexer.Proofs.Yaml.Integer
import ExprLexer.Proofs.Yaml.Numeral
import ExprLexer.Proofs.Yaml.Misfit
import ExprLexer.Proofs.Encoding.Scheme
import ExprLexer.Proofs.Encoding.Utf8
import ExprLexer.Proofs.Listing.Load
import ExprLexer.Proofs.Command.Unsettled
import ExprLexer.Proofs.Encoding.Single
import ExprLexer.Proofs.Encoding.Wide
import ExprLexer.Proofs.Source
import ExprLexer.Proofs.Json.Layout
import ExprLexer.Proofs.Json.Reader
import ExprLexer.Proofs.Listing.Grammar
import ExprLexer.Proofs.Text.Points
import ExprLexer.Proofs.Schema.Numeral
import ExprLexer.Proofs.Schema.Value
import ExprLexer.Proofs.Listing.Data
import ExprLexer.Proofs.Scan.Steps
import ExprLexer.Proofs.Scan.Progress
import ExprLexer.Proofs.Scan.Accounts
import ExprLexer.Proofs.Encoding.Name
import ExprLexer.Proofs.Source.Name
import ExprLexer.Proofs.Data.Keys
import ExprLexer.Proofs.Schema.Record
import ExprLexer.Proofs.Settings.Schema
import ExprLexer.Proofs.Listing.Lines
import ExprLexer.Proofs.Listing.Plain
import ExprLexer.Proofs.Text.Escapes
import ExprLexer.Proofs.Text.Printable
import ExprLexer.Proofs.Listing.Table
import ExprLexer.Proofs.Text.Quoted
import ExprLexer.Proofs.Diagnostic
import ExprLexer.Proofs.Command.Warnings
import ExprLexer.Proofs.Settings.Override
import ExprLexer.Proofs.File.Tree
import ExprLexer.Proofs.Settings.Find
import ExprLexer.Proofs.Scan.Resumption
